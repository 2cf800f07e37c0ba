import Pseudocode.Proofs.EvaluationRelation

/-!
# Fuel for evaluation

Fuel only bounds how deep steps nest. More fuel than enough changes nothing, and the fuel that a run
is given is always enough: between two checks of the watchdog steps nest no deeper than the program,
and the watchdog lets no more checks pass than its budget allows.

* `runProgram_add`           more fuel changes nothing, unless fuel ran out
* `runProgram_ne_outOfFuel`  fuel does not run out
-/

namespace Pseudocode

/-- A check passes only if there is time left. -/
theorem Watchdog.spent_add_delay_lt (w : Watchdog) (hrunning : w.running = true)
    (hstop : w.stop? = none) : w.spent + w.delay < w.budget := by
  simp only [stop?, hrunning] at hstop
  split at hstop
  · cases hstop
  · exact Nat.not_le.mp fun hge => by simp [hge] at hstop

namespace Script

open Eval

/-! ## More fuel -/

/-- The left side runs out of fuel, or both sides do the same. -/
def ExhaustedOrSame : EvalRelation := fun _ x y =>
  ∀ m, (∃ m', x m = .error .outOfFuel m') ∨ x m = y m

theorem exhaustedOrSame_isClosed : ExhaustedOrSame.IsClosed ExhaustedOrSame := by
  have hbind {α β : Type} {x y : Eval α} {f g : α → Eval β} (hxy : ExhaustedOrSame α x y)
      (hfg : ∀ a, ExhaustedOrSame β (f a) (g a)) : ExhaustedOrSame β (x >>= f) (y >>= g) := by
    intro m
    -- a first part that runs out of fuel ends the whole
    rcases hxy m with ⟨m', hx⟩ | hx
    · left
      exact ⟨m', by simp [bind, EStateM.bind, hx]⟩
    · cases hy : y m with
      | ok a m' => simpa [bind, EStateM.bind, hx, hy] using hfg a m'
      | error u m' => simp [bind, EStateM.bind, hx, hy]
  have hsame {α : Type} (x : Eval α) : ExhaustedOrSame α x x := fun m => .inr rfl
  constructor <;> intros
  case weaken h => exact h
  case bind hxy hfg => exact hbind hxy hfg
  case bindAfter hxy hfg => exact hbind hxy hfg
  case check hfg => exact hbind (hsame _) hfg
  case within call hxy =>
    intro m
    rcases hxy { m with calls := call :: m.calls } with ⟨m', hx⟩ | hx
    · left
      exact ⟨_, by rw [Eval.within, hx]⟩
    · right
      rw [Eval.within, Eval.within, hx]
  all_goals exact hsame _

/-- More fuel changes nothing, unless the fuel ran out. -/
theorem runProgram_add (program : Program) (fuel extra : Nat) (m : Machine) :
    (∃ m', runProgram fuel program m = .error .outOfFuel m') ∨
      runProgram fuel program m = runProgram (fuel + extra) program m := by
  have hrespects := respects_add exhaustedOrSame_isClosed
    (fun _ _ m => .inl ⟨m, rfl⟩) fuel extra
  exact hrespects.runProgram exhaustedOrSame_isClosed program m

/-! ## The functions of a heap

Operations on values change arrays, never functions. -/

/-- An operation that leaves the functions of a heap alone. -/
def KeepsClosures {α : Type} (operation : Heap → Outcome α) : Prop :=
  ∀ h a h', operation h = .ok a h' → h'.closures = h.closures

namespace Heap

theorem newArray_keepsClosures (items : Array Value) : KeepsClosures (newArray · items) := by
  intro h a h' heq
  simp only [newArray, allocate, EStateM.Result.ok.injEq] at heq
  obtain ⟨_, rfl⟩ := heq
  rfl

theorem constructArray_keepsClosures (values : List Value) :
    KeepsClosures (constructArray · values) := by
  intro h a h' heq
  simp only [constructArray] at heq
  split at heq
  · split at heq
    · cases heq
    · exact newArray_keepsClosures _ h a h' heq
  · exact newArray_keepsClosures _ h a h' heq

theorem callArray_keepsClosures (ref : Nat) (method : ArrayMethod) (values : List Value) :
    KeepsClosures (callArray · ref method values) := by
  intro h a h' heq
  cases method <;> simp only [callArray, modify] at heq
  case slice => exact newArray_keepsClosures _ h a h' heq
  case push | fill =>
    split at heq
    · cases heq
    · cases heq
      rfl
  all_goals
    cases heq
    rfl

theorem callString_keepsClosures (t : Text) (method : StringMethod) (values : List Value) :
    KeepsClosures (callString · t method values) := by
  intro h a h' heq
  cases method <;> simp only [callString] at heq
  case split => exact newArray_keepsClosures _ h a h' heq
  all_goals
    cases heq
    rfl

theorem callNumber_keepsClosures (x : Float) (method : NumberMethod) (values : List Value) :
    KeepsClosures (callNumber · x method values) := by
  intro h a h' heq
  cases method <;> simp only [callNumber] at heq
  all_goals
    repeat' split at heq
    all_goals cases heq <;> rfl

theorem method?_keepsClosures {object : Value} {name : Text} {call : Heap → List Value → Outcome Value}
    (hmethod : method? object name = some call) (values : List Value) :
    KeepsClosures (call · values) := by
  have hread {α : Type} (look : Heap → α) : KeepsClosures (fun h => .ok (look h) h) := by
    intro h a h' heq
    cases heq
    rfl
  cases object <;> simp only [method?, Option.map_eq_some_iff, reduceCtorEq] at hmethod
  case math =>
    obtain ⟨f, _, rfl⟩ := hmethod
    exact hread _
  case array ref =>
    obtain ⟨f, _, rfl⟩ := hmethod
    exact callArray_keepsClosures ref f values
  case string t =>
    obtain ⟨f, _, rfl⟩ := hmethod
    exact callString_keepsClosures t f values
  case number x =>
    obtain ⟨f, _, rfl⟩ := hmethod
    exact callNumber_keepsClosures x f values
  all_goals
    split at hmethod
    · simp only [Option.some.injEq] at hmethod
      subst hmethod
      exact hread _
    · cases hmethod

theorem callNative_keepsClosures (function : Native) (values : List Value) :
    KeepsClosures (callNative · function values) := by
  intro h a h' heq
  cases function <;> simp only [callNative, reduceCtorEq] at heq
  case array => exact constructArray_keepsClosures values h a h' heq
  all_goals
    cases heq
    rfl

theorem setProperty_keepsClosures (object : Value) (key : Text) (value : Value) :
    KeepsClosures (setProperty · object key value) := by
  intro h a h' heq
  cases object <;> simp only [setProperty, modify, reduceCtorEq] at heq
  case array ref =>
    repeat' split at heq
    all_goals cases heq <;> rfl
  all_goals
    cases heq
    rfl

end Heap

/-! ## Enough fuel -/

/-- The checks that may still pass on a watched machine: the rest of the budget, and all of it again
    after each answer. -/
def Machine.checksLeft (m : Machine) : Nat :=
  m.watchdog.budget - m.watchdog.spent + m.answers.length * m.watchdog.budget

/-- On a watched machine at most `left` checks pass any more, and no function has more than `parts`
    parts. -/
structure IsWatched (parts left : Nat) (m : Machine) : Prop where
  running : m.watchdog.running = true
  checksLeft : m.checksLeft ≤ left
  closures : ∀ c ∈ m.heap.closures, Command.sizeAll c.body ≤ parts

/-- On a watched machine fuel does not run out. -/
def Finishes (parts left : Nat) {α : Type} (x : Eval α) : Prop :=
  ∀ m, IsWatched parts left m → match x m with
    | .ok _ m' => IsWatched parts left m'
    | .error u _ => u ≠ .outOfFuel

section

variable {parts left : Nat} {α β : Type}

/-- What neither counts time nor makes a function. -/
private theorem finishes_of_keeps {x : Eval α}
    (h : ∀ m, match x m with
      | .ok _ m' => m'.watchdog = m.watchdog ∧ m'.answers = m.answers ∧
          m'.heap.closures = m.heap.closures
      | .error u _ => u ≠ .outOfFuel) : Finishes parts left x := by
  intro m hm
  have hkeeps := h m
  split at hkeeps
  · obtain ⟨hwatchdog, hanswers, hclosures⟩ := hkeeps
    have hleft := hm.checksLeft
    exact ⟨by rw [hwatchdog]; exact hm.running,
      by rwa [Machine.checksLeft, hwatchdog, hanswers], by rw [hclosures]; exact hm.closures⟩
  · exact hkeeps

private theorem finishes_pure (a : α) : Finishes parts left (pure a : Eval α) := fun _ hm => hm

private theorem Finishes.bind {x : Eval α} {f : α → Eval β} (hx : Finishes parts left x)
    (hf : ∀ a, Finishes parts left (f a)) : Finishes parts left (x >>= f) := by
  intro m hm
  have hxm := hx m hm
  simp only [Bind.bind, EStateM.bind]
  cases hrun : x m with
  | ok a m' =>
    rw [hrun] at hxm
    exact hf a m' hxm
  | error u m' =>
    rw [hrun] at hxm
    exact hxm

/-- A check that passes leaves one less. -/
private theorem finishes_check (place : Position) {f : Unit → Eval β}
    (hf : ∀ l, left = l + 1 → Finishes parts l (f ())) :
    Finishes parts left (tick place >>= f) := by
  intro m hm
  simp only [Bind.bind, EStateM.bind]
  cases hstop : m.watchdog.stop? with
  | some why =>
    obtain ⟨u, hu, hstop⟩ := tick_of_stops place hstop
    rw [hu]
    rintro rfl
    cases why <;> exact hstop
  | none =>
    rw [tick_of_passes hstop]
    have hspent := m.watchdog.spent_add_delay_lt hm.running hstop
    have hleft := hm.checksLeft
    simp only [Machine.checksLeft] at hleft
    -- a check that passes is one of those that were left
    have hticked : IsWatched parts (left - 1) { m with watchdog := m.watchdog.tick } := by
      refine ⟨hm.running, ?_, hm.closures⟩
      simp only [Machine.checksLeft, Watchdog.tick, hm.running, if_true]
      omega
    have hrest := hf (left - 1) (by omega) _ hticked
    cases hrun : f () { m with watchdog := m.watchdog.tick } with
    | ok a m' =>
      simp only [hrun] at hrest ⊢
      exact ⟨hrest.running, Nat.le_trans hrest.checksLeft (Nat.sub_le left 1), hrest.closures⟩
    | error u m' => simpa only [hrun] using hrest

private theorem Finishes.within {x : Eval α} (hx : Finishes parts left x) (call : Call) :
    Finishes parts left (within call x) := by
  intro m hm
  have hxm := hx { m with calls := call :: m.calls } ⟨hm.running, hm.checksLeft, hm.closures⟩
  simp only [Eval.within]
  cases hrun : x { m with calls := call :: m.calls } with
  | ok a m' =>
    rw [hrun] at hxm
    exact ⟨hxm.running, hxm.checksLeft, hxm.closures⟩
  | error u m' => simpa only [hrun] using hxm

private theorem finishes_fromHeap (look : Heap → α) : Finishes parts left (fromHeap look) :=
  finishes_of_keeps fun _ => ⟨rfl, rfl, rfl⟩

/-- A function that is looked up has no more than `parts` parts. -/
private theorem finishes_look (ref : Nat) {f : Option Closure → Eval β}
    (hf : ∀ found, (∀ c, found = some c → Command.sizeAll c.body ≤ parts) →
      Finishes parts left (f found)) :
    Finishes parts left (fromHeap (fun h => h.closures[ref]?) >>= f) := by
  intro m hm
  refine hf m.heap.closures[ref]? (fun c hc => ?_) m hm
  exact hm.closures c (Array.mem_of_getElem? hc)

private theorem finishes_fail (place : Position) (cause : ErrorCause) :
    Finishes parts left (fail place cause : Eval α) :=
  finishes_of_keeps fun _ => by simp [fail]

private theorem finishes_onHeap (place : Position) {operation : Heap → Outcome α}
    (h : KeepsClosures operation) : Finishes parts left (onHeap place operation) := by
  refine finishes_of_keeps fun m => ?_
  simp only [onHeap]
  cases hrun : operation m.heap with
  | ok a heap => exact ⟨rfl, rfl, h _ _ _ hrun⟩
  | error why heap => cases why <;> simp

private theorem finishes_readHeap (place : Position) (look : Heap → Except ErrorCause α) :
    Finishes parts left (readHeap place look) := by
  refine finishes_of_keeps fun m => ?_
  simp only [readHeap]
  cases look m.heap with
  | ok a => exact ⟨rfl, rfl, rfl⟩
  | error cause => simp [fail]

private theorem finishes_openScope (scope : Scope) : Finishes parts left (openScope scope) :=
  finishes_of_keeps fun _ => ⟨rfl, rfl, rfl⟩

private theorem finishes_find? (scope : Scope) (name : Text) :
    Finishes parts left (find? scope name) :=
  finishes_of_keeps fun _ => ⟨rfl, rfl, rfl⟩

private theorem finishes_find (scope : Scope) (name : Text) (place : Position) :
    Finishes parts left (find scope name place) := by
  refine (finishes_find? scope name).bind fun found => ?_
  cases found with
  | some v => exact finishes_pure v
  | none => exact finishes_fail place _

private theorem finishes_define (scope : Scope) (name : Text) (value : Value) :
    Finishes parts left (define scope name value) :=
  finishes_of_keeps fun _ => ⟨rfl, rfl, rfl⟩

private theorem finishes_declare (scope : Scope) (name : Text) (binding : Binding)
    (place : Position) : Finishes parts left (declare scope name binding place) := by
  refine finishes_of_keeps fun m => ?_
  simp only [declare]
  cases m.frames.declareFault? name scope <;> simp [fail]

private theorem finishes_assign (scope : Scope) (name : Text) (value : Value) (place : Position) :
    Finishes parts left (assign scope name value place) := by
  refine finishes_of_keeps fun m => ?_
  simp only [assign]
  cases m.frames.assignFault? name scope with
  | none => exact ⟨rfl, rfl, rfl⟩
  | some fault => cases fault <;> simp [fail]

private theorem finishes_checkCalls (place : Position) : Finishes parts left (checkCalls place) := by
  refine finishes_of_keeps fun m => ?_
  by_cases hdeep : m.maxCalls < m.calls.length
  · simp [checkCalls, hdeep, fail]
  · simp [checkCalls, hdeep]

private theorem finishes_newClosure {closure : Closure}
    (h : Command.sizeAll closure.body ≤ parts) : Finishes parts left (newClosure closure) := by
  intro m hm
  refine ⟨hm.running, hm.checksLeft, fun c hc => ?_⟩
  rcases Array.mem_push.mp hc with hc | rfl
  · exact hm.closures c hc
  · exact h

private theorem finishes_print (shown : Text) : Finishes parts left (print shown) := by
  intro m hm
  simp only [print]
  rcases m.cancelAfter with _ | _ | _ | prints <;>
    exact ⟨hm.running, hm.checksLeft, hm.closures⟩

/-- An answer pays for the budget that starts anew after it. -/
private theorem finishes_input (prompt : Text) : Finishes parts left (input prompt) := by
  intro m hm
  have hleft := hm.checksLeft
  simp only [Machine.checksLeft] at hleft
  simp only [input]
  cases hanswers : m.answers with
  | nil => simp
  | cons answer answers =>
    refine ⟨by simp [Watchdog.resume, Watchdog.pause], ?_, hm.closures⟩
    rw [hanswers, List.length_cons, Nat.succ_mul] at hleft
    simp only [Machine.checksLeft, Watchdog.resume, Watchdog.pause, Bool.false_eq_true, if_false]
    by_cases hpolicy : m.watchdog.policy = .resetAfterInput
    · simp only [hpolicy, if_true]
      omega
    · simp only [hpolicy, if_false]
      omega

private theorem finishes_bindParameters (scope : Scope) (parameters : List Text) :
    ∀ values, Finishes parts left (bindParameters scope parameters values) := by
  induction parameters with
  | nil =>
    intro values
    exact finishes_pure ()
  | cons p ps ih =>
    intro values
    cases values with
    | nil => exact (finishes_define scope p .undefined).bind fun _ => ih []
    | cons v vs => exact (finishes_define scope p v).bind fun _ => ih vs

/-- The functions of a block have no more parts than the block. -/
private theorem finishes_hoist (scope : Scope) (commands : List Command)
    (h : Command.sizeAll commands ≤ parts) : Finishes parts left (hoist scope commands) := by
  induction commands with
  | nil => exact finishes_pure ()
  | cons c rest ih =>
    simp only [Command.sizeAll] at h
    have hrest := ih (by omega)
    cases c with
    | function place name namePlace parameters isAsync body =>
      simp only [Command.size] at h
      refine (finishes_newClosure ?_).bind fun v =>
        (finishes_define scope name v).bind fun _ => hrest
      show Command.sizeAll body ≤ parts
      omega
    | _ => exact hrest

private theorem finishes_bindDeclared (scope : Scope) (kind : BindingKind) (name : Text)
    (value : Value) (place : Position) :
    Finishes parts left (bindDeclared scope kind name value place) := by
  cases kind with
  | «let» => exact finishes_declare scope name _ place
  | const => exact finishes_declare scope name _ place
  | var => exact finishes_define scope name value

private theorem finishes_unary (operator : UnaryOperator) (value : Value) :
    Finishes parts left (unary operator value) := by
  cases operator <;> simp only [Eval.unary]
  case not => exact finishes_pure _
  case negate => exact finishes_fromHeap _
  case plus => exact finishes_fromHeap _
  case typeOf => exact finishes_pure _
  case await => exact finishes_pure _

private theorem finishes_callMethod (object : Value) (method : Text) (values : List Value)
    (description : Text) (place : Position) :
    Finishes parts left (callMethod object method values description place) := by
  unfold Eval.callMethod
  split
  · exact finishes_fail place _
  · exact finishes_fail place _
  · split
    · rename_i hmethod
      exact finishes_onHeap place (Heap.method?_keepsClosures hmethod values)
    · exact finishes_fail place _

private theorem finishes_callNative (function : Native) (values : List Value) (place : Position) :
    Finishes parts left (callNative function values place) := by
  cases function with
  | print =>
    exact (finishes_fromHeap _).bind fun shown => (finishes_print shown).bind fun _ => finishes_pure _
  | input =>
    exact (finishes_fromHeap _).bind fun prompt => (finishes_input prompt).bind fun _ =>
      finishes_pure _
  | _ =>
    simp only [Eval.callNative]
    exact finishes_onHeap place (Heap.callNative_keepsClosures _ values)

end

/-- Fuel `n` is enough for what nests less deep: by the parts of what is evaluated, and by those of
    one function for each check that is left. -/
structure Suffices (parts n : Nat) : Prop where
  evaluate {left : Nat} (scope : Scope) (e : Expression) :
    e.size + left * (parts + 2) < n → Finishes parts left (evaluate n scope e)
  evaluateAll {left : Nat} (scope : Scope) (es : List Expression) :
    Expression.sizeAll es + left * (parts + 2) < n → Finishes parts left (evaluateAll n scope es)
  store {left : Nat} (scope : Scope) (target : Expression) (value : Value) :
    target.size + left * (parts + 2) < n → Finishes parts left (store n scope target value)
  callClosure {left : Nat} (ref : Nat) (values : List Value) (place : Position) :
    parts + 2 + left * (parts + 2) < n → Finishes parts left (callClosure n ref values place)
  runDeclarators {left : Nat} (scope : Scope) (kind : BindingKind)
      (ds : List (Declarator Expression Position)) :
    declaratorsSize ds + left * (parts + 2) < n →
      Finishes parts left (runDeclarators n scope kind ds)
  runBlock {left : Nat} (scope : Scope) (commands : List Command) :
    Command.sizeAll commands ≤ parts →
      Command.sizeAll commands + 1 + left * (parts + 2) < n →
        Finishes parts left (runBlock n scope commands)
  runAll {left : Nat} (scope : Scope) (commands : List Command) :
    Command.sizeAll commands ≤ parts →
      Command.sizeAll commands + left * (parts + 2) < n →
        Finishes parts left (runAll n scope commands)
  runLoop {left : Nat} (scope : Scope) (place : Position) (test update : Option Expression)
      (body : Command) :
    body.size ≤ parts →
      optionalSize test + optionalSize update + body.size + 1 + left * (parts + 2) < n →
        Finishes parts left (runLoop n scope place test update body)
  run {left : Nat} (scope : Scope) (c : Command) :
    c.size ≤ parts → c.size + left * (parts + 2) < n → Finishes parts left (run n scope c)

section

variable {parts left n : Nat}

private theorem evaluate_suffices (ih : Suffices parts n) (scope : Scope) (e : Expression)
    (hneed : e.size + left * (parts + 2) < n + 1) : Finishes parts left (evaluate (n + 1) scope e) := by
  cases e with
  | number place x => exact finishes_pure _
  | string place t => exact finishes_pure _
  | bool place b => exact finishes_pure _
  | null place => exact finishes_pure _
  | undefined place => exact finishes_pure _
  | array place items =>
    simp only [Expression.size] at hneed
    simp only [evaluate]
    exact (ih.evaluateAll scope items (by omega)).bind fun values =>
      finishes_onHeap place (Heap.newArray_keepsClosures _)
  | identifier place name =>
    simp only [evaluate]
    exact finishes_find scope name place
  | unary place operator operand =>
    simp only [Expression.size] at hneed
    by_cases htypeOf : ∃ p name, operator = .typeOf ∧ operand = .identifier p name
    · obtain ⟨p, name, rfl, rfl⟩ := htypeOf
      simp only [evaluate]
      exact (finishes_find? scope name).bind fun found => finishes_pure _
    · rw [evaluate_unary n scope place htypeOf]
      exact (ih.evaluate scope operand (by omega)).bind fun value => finishes_unary operator value
  | binary place operator left right =>
    simp only [Expression.size] at hneed
    cases operator with
    | and =>
      simp only [evaluate]
      refine (ih.evaluate scope left (by omega)).bind fun value => ?_
      split
      · exact ih.evaluate scope right (by omega)
      · exact finishes_pure value
    | or =>
      simp only [evaluate]
      refine (ih.evaluate scope left (by omega)).bind fun value => ?_
      split
      · exact finishes_pure value
      · exact ih.evaluate scope right (by omega)
    | _ =>
      simp only [evaluate]
      exact (ih.evaluate scope left (by omega)).bind fun a =>
        (ih.evaluate scope right (by omega)).bind fun b => finishes_fromHeap _
  | conditional place test yes no =>
    simp only [Expression.size] at hneed
    simp only [evaluate]
    refine (ih.evaluate scope test (by omega)).bind fun value => ?_
    split
    · exact ih.evaluate scope yes (by omega)
    · exact ih.evaluate scope no (by omega)
  | assign place operator target value =>
    simp only [Expression.size] at hneed
    simp only [evaluate]
    cases operator.binary? with
    | none =>
      exact (ih.evaluate scope value (by omega)).bind fun v =>
        (ih.store scope target v (by omega)).bind fun _ => finishes_pure v
    | some operator =>
      exact (ih.evaluate scope target (by omega)).bind fun current =>
        (ih.evaluate scope value (by omega)).bind fun operand => (finishes_fromHeap _).bind fun v =>
          (ih.store scope target v (by omega)).bind fun _ => finishes_pure v
  | call place callee operands =>
    simp only [Expression.size] at hneed
    by_cases hmember : ∃ p object method, callee = .member p object method
    · obtain ⟨p, object, method, rfl⟩ := hmember
      simp only [Expression.size] at hneed
      simp only [evaluate]
      refine finishes_check place fun l hl => ?_
      subst hl
      rw [Nat.succ_mul] at hneed
      exact (ih.evaluate scope object (by omega)).bind fun v =>
        (ih.evaluateAll scope operands (by omega)).bind fun values =>
          finishes_callMethod v method values _ place
    · rw [evaluate_call n scope place operands hmember]
      refine finishes_check place fun l hl => ?_
      subst hl
      rw [Nat.succ_mul] at hneed
      refine (ih.evaluate scope callee (by omega)).bind fun function =>
        (ih.evaluateAll scope operands (by omega)).bind fun values => ?_
      -- the check pays for the parts of the function that is called
      split
      · exact ih.callClosure _ values place (by omega)
      · exact finishes_callNative _ values place
      · exact finishes_fail place _
  | index place object key =>
    simp only [Expression.size] at hneed
    simp only [evaluate]
    exact (ih.evaluate scope object (by omega)).bind fun object =>
      (ih.evaluate scope key (by omega)).bind fun key => finishes_readHeap place _
  | member place object name =>
    simp only [Expression.size] at hneed
    simp only [evaluate]
    exact (ih.evaluate scope object (by omega)).bind fun object => finishes_readHeap place _
  | construct place name operands =>
    simp only [Expression.size] at hneed
    simp only [evaluate]
    refine finishes_check place fun l hl => ?_
    subst hl
    rw [Nat.succ_mul] at hneed
    refine (finishes_find scope name place).bind fun constructor =>
      (ih.evaluateAll scope operands (by omega)).bind fun values => ?_
    split
    · exact finishes_onHeap place (Heap.constructArray_keepsClosures values)
    · exact finishes_fail place _

private theorem evaluateAll_suffices (ih : Suffices parts n) (scope : Scope) (es : List Expression)
    (hneed : Expression.sizeAll es + left * (parts + 2) < n + 1) :
    Finishes parts left (evaluateAll (n + 1) scope es) := by
  cases es with
  | nil => exact finishes_pure _
  | cons e es =>
    simp only [Expression.sizeAll] at hneed
    simp only [evaluateAll]
    exact (ih.evaluate scope e (by omega)).bind fun v =>
      (ih.evaluateAll scope es (by omega)).bind fun vs => finishes_pure _

private theorem store_suffices (ih : Suffices parts n) (scope : Scope) (target : Expression)
    (value : Value) (hneed : target.size + left * (parts + 2) < n + 1) :
    Finishes parts left (store (n + 1) scope target value) := by
  cases target with
  | identifier place name => exact finishes_assign scope name value place
  | index place object key =>
    simp only [Expression.size] at hneed
    simp only [store]
    exact (ih.evaluate scope object (by omega)).bind fun object =>
      (ih.evaluate scope key (by omega)).bind fun key => (finishes_fromHeap _).bind fun name =>
        finishes_onHeap place (Heap.setProperty_keepsClosures _ _ _)
  | member place object name =>
    simp only [Expression.size] at hneed
    simp only [store]
    exact (ih.evaluate scope object (by omega)).bind fun object =>
      finishes_onHeap place (Heap.setProperty_keepsClosures _ _ _)
  | _ =>
    simp only [store]
    exact finishes_fail _ _

private theorem callClosure_suffices (ih : Suffices parts n) (ref : Nat) (values : List Value)
    (place : Position) (hneed : parts + 2 + left * (parts + 2) < n + 1) :
    Finishes parts left (callClosure (n + 1) ref values place) := by
  simp only [callClosure]
  refine (finishes_checkCalls place).bind fun _ => finishes_look ref fun found hfound => ?_
  cases found with
  | none => exact finishes_pure _
  | some closure =>
    have hparts := hfound closure rfl
    refine (finishes_openScope _).bind fun scope =>
      (finishes_bindParameters scope _ values).bind fun _ =>
        ((ih.runBlock scope closure.body hparts (by omega)).within _).bind fun flow => ?_
    split <;> exact finishes_pure _

private theorem runDeclarators_suffices (ih : Suffices parts n) (scope : Scope) (kind : BindingKind)
    (ds : List (Declarator Expression Position))
    (hneed : declaratorsSize ds + left * (parts + 2) < n + 1) :
    Finishes parts left (runDeclarators (n + 1) scope kind ds) := by
  cases ds with
  | nil => exact finishes_pure ()
  | cons d ds =>
    simp only [declaratorsSize] at hneed
    simp only [runDeclarators]
    refine finishes_check d.place fun l hl => ?_
    subst hl
    rw [Nat.succ_mul] at hneed
    -- the check has been counted, which pays for the names that follow
    have hrest (value : Value) : Finishes parts l (do
        bindDeclared scope kind d.name value d.place
        runDeclarators n scope kind ds) :=
      (finishes_bindDeclared scope kind d.name value d.place).bind fun _ =>
        ih.runDeclarators scope kind ds (by omega)
    cases hvalue : d.value with
    | none => exact (finishes_pure _).bind hrest
    | some e =>
      rw [hvalue, optionalSize] at hneed
      exact (ih.evaluate scope e (by omega)).bind hrest

private theorem runAll_suffices (ih : Suffices parts n) (scope : Scope) (commands : List Command)
    (hparts : Command.sizeAll commands ≤ parts)
    (hneed : Command.sizeAll commands + left * (parts + 2) < n + 1) :
    Finishes parts left (runAll (n + 1) scope commands) := by
  cases commands with
  | nil => exact finishes_pure _
  | cons c cs =>
    simp only [Command.sizeAll] at hneed hparts
    simp only [runAll]
    refine (ih.run scope c (by omega) (by omega)).bind fun flow => ?_
    cases flow with
    | normal => exact ih.runAll scope cs (by omega) (by omega)
    | _ => exact finishes_pure _

private theorem runLoop_suffices (ih : Suffices parts n) (scope : Scope) (place : Position)
    (test update : Option Expression) (body : Command) (hparts : body.size ≤ parts)
    (hneed : optionalSize test + optionalSize update + body.size + 1 + left * (parts + 2) < n + 1) :
    Finishes parts left (runLoop (n + 1) scope place test update body) := by
  rw [runLoop_eq_rounds]
  refine finishes_check place fun l hl => ?_
  subst hl
  rw [Nat.succ_mul] at hneed
  -- the check pays for the next round, which has as many parts as this one
  have hagain : Finishes parts l (runLoop n scope place test update body) :=
    ih.runLoop scope place test update body hparts (by omega)
  refine Finishes.bind ?_ fun onward => ?_
  · cases test with
    | none => exact finishes_pure true
    | some e =>
      simp only [optionalSize] at hneed
      exact (ih.evaluate scope e (by omega)).bind fun _ => finishes_pure _
  · split
    · refine (ih.run scope body hparts (by omega)).bind fun flow => ?_
      cases flow with
      | broken => exact finishes_pure _
      | returned value => exact finishes_pure _
      | normal | continued =>
        cases update with
        | none => exact hagain
        | some e =>
          simp only [optionalSize] at hneed
          exact (ih.evaluate scope e (by omega)).bind fun _ => hagain
    · exact finishes_pure _

private theorem run_suffices (ih : Suffices parts n) (scope : Scope) (c : Command)
    (hparts : c.size ≤ parts) (hneed : c.size + left * (parts + 2) < n + 1) :
    Finishes parts left (run (n + 1) scope c) := by
  -- each check that is left stands for `parts + 2` units of fuel, and is spent where it is made
  cases c with
  | expression e =>
    simp only [Command.size] at hneed
    simp only [run]
    refine finishes_check e.position fun l hl => ?_
    subst hl
    rw [Nat.succ_mul] at hneed
    exact (ih.evaluate scope e (by omega)).bind fun _ => finishes_pure _
  | declaration kind ds =>
    simp only [Command.size] at hneed
    simp only [run]
    exact (ih.runDeclarators scope kind ds (by omega)).bind fun _ => finishes_pure _
  | function place name namePlace parameters isAsync body => exact finishes_pure _
  | empty => exact finishes_pure _
  | returning place value =>
    simp only [Command.size] at hneed
    simp only [run]
    refine finishes_check place fun l hl => ?_
    subst hl
    rw [Nat.succ_mul] at hneed
    cases value with
    | none => exact finishes_pure _
    | some e =>
      simp only [optionalSize] at hneed
      exact (ih.evaluate scope e (by omega)).bind fun _ => finishes_pure _
  | branch test yes no =>
    unfold Command.size at hneed hparts
    simp only [run]
    refine finishes_check test.position fun l hl => ?_
    subst hl
    rw [Nat.succ_mul] at hneed
    refine (ih.evaluate scope test (by omega)).bind fun value => ?_
    split
    · exact ih.run scope yes (by omega) (by omega)
    · cases no with
      | none => exact finishes_pure _
      | some no =>
        simp only at hneed hparts
        exact ih.run scope no (by omega) (by omega)
  | whileLoop test body =>
    simp only [Command.size] at hneed hparts
    simp only [run]
    exact ih.runLoop scope test.position (some test) none body (by omega)
      (by simp only [optionalSize]; omega)
  | forLoop place start test update body =>
    simp only [Command.size] at hneed hparts
    simp only [run]
    have hloop (scope : Scope) : Finishes parts left (runLoop n scope place test update body) :=
      ih.runLoop scope place test update body (by omega) (by omega)
    refine (finishes_openScope scope).bind fun scope => ?_
    cases start with
    | none => exact hloop scope
    | some start =>
      cases start with
      | declaration kind ds =>
        simp only [loopStartSize] at hneed
        exact (ih.runDeclarators scope kind ds (by omega)).bind fun _ => hloop scope
      | expression e =>
        simp only [loopStartSize] at hneed
        exact (ih.evaluate scope e (by omega)).bind fun _ => hloop scope
  | block body =>
    simp only [Command.size] at hneed hparts
    simp only [run]
    exact (finishes_openScope scope).bind fun scope =>
      ih.runBlock scope body (by omega) (by omega)
  | breaking place =>
    simp only [run]
    exact finishes_check place fun l _ => finishes_pure _
  | continuing place =>
    simp only [run]
    exact finishes_check place fun l _ => finishes_pure _

/-- Every amount of fuel suffices for what it covers. -/
private theorem suffices_all (parts n : Nat) : Suffices parts n := by
  induction n with
  | zero => constructor <;> intros <;> omega
  | succ n ih =>
    exact {
      evaluate := fun scope e => evaluate_suffices ih scope e
      evaluateAll := fun scope es => evaluateAll_suffices ih scope es
      store := fun scope target value => store_suffices ih scope target value
      callClosure := fun ref values place => callClosure_suffices ih ref values place
      runDeclarators := fun scope kind ds => runDeclarators_suffices ih scope kind ds
      runBlock := fun scope commands hparts hneed => by
        simp only [runBlock]
        exact (finishes_hoist scope commands hparts).bind fun _ =>
          ih.runAll scope commands hparts (by omega)
      runAll := fun scope commands => runAll_suffices ih scope commands
      runLoop := fun scope place test update body => runLoop_suffices ih scope place test update body
      run := fun scope c => run_suffices ih scope c }

/-- A program finishes on a watched machine. -/
theorem runProgram_finishes {program : Program} (hparts : Command.sizeAll program ≤ parts)
    (hneed : (left + 1) * (parts + 2) < n) : Finishes parts left (runProgram n program) := by
  have hsuffices := suffices_all parts n
  rw [Nat.succ_mul] at hneed
  simp only [runProgram]
  refine ((hsuffices.runBlock _ program hparts (by omega)).within _).bind fun _ =>
    (finishes_find? _ _).bind fun found => ?_
  split
  · refine (finishes_fromHeap _).bind fun closure => ?_
    split
    · exact (hsuffices.callClosure _ _ _ (by omega)).bind fun _ => finishes_pure ()
    · exact finishes_pure ()
  · exact finishes_pure ()

end

/-- The fuel of a run does not run out, however the watchdog finds the time to pass. -/
theorem runProgram_ne_outOfFuel (program : Program) (watchdog : Watchdog)
    (hrunning : watchdog.running = true) (maxCalls : Nat) (answers : List Text)
    (cancelAfter : Option Nat) (extra : Nat) (m' : Machine) :
    let m := Machine.start watchdog maxCalls answers cancelAfter
    runProgram (m.fuel program + extra) program m ≠ .error .outOfFuel m' := by
  intro m hout
  have hwatched : IsWatched (Command.sizeAll program)
      ((answers.length + 1) * watchdog.budget) m := by
    refine ⟨hrunning, ?_, fun c hc => absurd hc (Array.not_mem_empty c)⟩
    rw [Nat.succ_mul]
    simp only [m, Machine.checksLeft, Machine.start]
    omega
  -- the fuel is made for all checks that the budget and the answers allow
  have hneed : ((answers.length + 1) * watchdog.budget + 1) * (Command.sizeAll program + 2) <
      m.fuel program + extra := by
    have hchecks : (answers.length + 1) * watchdog.budget + 1 ≤
        (answers.length + 2) * (watchdog.budget + 2) := by
      rw [Nat.mul_add, Nat.succ_mul (answers.length + 1)]
      omega
    calc ((answers.length + 1) * watchdog.budget + 1) * (Command.sizeAll program + 2)
      _ ≤ (answers.length + 2) * (watchdog.budget + 2) * (Command.sizeAll program + 2) :=
        Nat.mul_le_mul_right _ hchecks
      _ < (answers.length + 2) * (watchdog.budget + 2) * (Command.sizeAll program + 8) :=
        Nat.mul_lt_mul_of_pos_left (by omega) (Nat.mul_pos (Nat.succ_pos _) (Nat.succ_pos _))
      _ ≤ m.fuel program + extra := Nat.le_add_right _ _
  have hfinishes := runProgram_finishes (Nat.le_refl _) hneed m hwatched
  rw [hout] at hfinishes
  exact hfinishes rfl

end Script

end Pseudocode
