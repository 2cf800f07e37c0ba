import Pseudocode.Proofs.EvaluationFuel

/-!
# How late a run falls silent

A run that is cancelled stops at the next check. Calls are checked before their operands are evaluated,
so a call that has been checked still talks to the host after a print among its operands has cancelled
the run. What is said late is bounded by how deep such calls nest.

* `Expression.callNesting`   how deep calls nest in an expression
* `Speaks`                   what is said after the run was cancelled, and how much of it
* `Speaks.bind`              one thing after the other
* `Speaks.check`             nothing is said behind a check once the run is cancelled
-/

namespace Pseudocode.Script

open Eval

/-! ## Nesting of calls -/

namespace Expression

/-- Whether the expression is that of a member. -/
def isMember : Expression → Bool
  | member _ _ _ => true
  | _ => false

mutual

/-- How deep calls of functions nest in the expression. The call of a method does not count, since
    methods never talk to the host. -/
def callNesting : Expression → Nat
  | array _ items => callNestingAll items
  | unary _ _ operand => operand.callNesting
  | binary _ _ left right => max left.callNesting right.callNesting
  | conditional _ test yes no => max test.callNesting (max yes.callNesting no.callNesting)
  | assign _ _ target value => max target.callNesting value.callNesting
  | call _ callee operands =>
    max callee.callNesting (callNestingAll operands) + if callee.isMember then 0 else 1
  | index _ object key => max object.callNesting key.callNesting
  | member _ object _ => object.callNesting
  | construct _ _ operands => callNestingAll operands
  | _ => 0

/-- How deep calls of functions nest in the expressions. -/
def callNestingAll : List Expression → Nat
  | [] => 0
  | e :: es => max e.callNesting (callNestingAll es)

end

end Expression

/-- How deep calls nest in an expression that need not be there. -/
def optionalNesting : Option Expression → Nat
  | none => 0
  | some e => e.callNesting

/-- How deep calls nest in the values of declarators. -/
def declaratorsNesting : List (Declarator Expression Position) → Nat
  | [] => 0
  | d :: ds => max (optionalNesting d.value) (declaratorsNesting ds)

/-- How deep calls nest in the start of a loop. -/
def loopStartNesting : Option (LoopStart Expression Position) → Nat
  | none => 0
  | some (.declaration _ ds) => declaratorsNesting ds
  | some (.expression e) => e.callNesting

mutual

/-- How deep calls of functions nest in an expression of the statement, those of its functions
    included. -/
def Command.callNesting : Command → Nat
  | .expression e => e.callNesting
  | .declaration _ ds => declaratorsNesting ds
  | .function _ _ _ _ _ body => Command.callNestingAll body
  | .returning _ value => optionalNesting value
  | .branch test yes no =>
    max test.callNesting (max (Command.callNesting yes) (match no with
      | some no => Command.callNesting no
      | none => 0))
  | .whileLoop test body => max test.callNesting (Command.callNesting body)
  | .forLoop _ start test update body =>
    max (max (loopStartNesting start) (optionalNesting test))
      (max (optionalNesting update) (Command.callNesting body))
  | .block body => Command.callNestingAll body
  | .breaking _ | .continuing _ | .empty => 0

/-- How deep calls of functions nest in an expression of the statements. -/
def Command.callNestingAll : List Command → Nat
  | [] => 0
  | c :: cs => max (Command.callNesting c) (Command.callNestingAll cs)

end

/-! ## Before and after the run is cancelled -/

/-- Whether the host is shown something. -/
def Interaction.isPrint : Interaction → Bool
  | .print _ => true
  | .input _ => false

namespace Machine

/-- The run is cancelled. In its functions, calls nest no deeper than `inner + 1`. -/
structure IsCancelled (inner : Nat) (m : Machine) : Prop where
  closures : ∀ c ∈ m.heap.closures, Command.callNestingAll c.body ≤ inner + 1
  cancelled : m.watchdog.cancelIn = some 0

/-- The run is to be cancelled right after its `n`-th print, which is still to come. Calls nest no
    deeper than `inner + 1` in its functions, and no more than `depth` further calls may be active at a
    time. -/
structure Awaits (inner n depth : Nat) (m : Machine) : Prop where
  closures : ∀ c ∈ m.heap.closures, Command.callNestingAll c.body ≤ inner + 1
  calls : m.maxCalls + 1 ≤ m.calls.length + depth
  uncancelled : m.watchdog.cancelIn = none
  left : ∃ l, m.cancelAfter = some (l + 1) ∧ m.log.countP Interaction.isPrint + (l + 1) = n

/-- No more than `more` was said since the log was `log`. -/
def Added (log : List Interaction) (more : Nat) (m : Machine) : Prop :=
  ∃ said, m.log = said ++ log ∧ said.length ≤ more

/-- Less than `late` was said since the `n`-th print. -/
def AddedSince (n late : Nat) (m : Machine) : Prop :=
  ∃ since shown before, m.log = since ++ .print shown :: before ∧
    before.countP Interaction.isPrint + 1 = n ∧ since.length < late

end Machine

/-- How something ends that begins after the run is cancelled. -/
def AddsUpTo (inner more : Nat) (log : List Interaction) {α : Type} :
    EStateM.Result Unwind Machine α → Prop
  | .ok _ m => m.IsCancelled inner ∧ m.Added log more
  | .error _ m => m.Added log more

/-- How something ends that begins before the run is cancelled. -/
def EndsBy (inner n depth late : Nat) {α : Type} : EStateM.Result Unwind Machine α → Prop
  | .ok _ m => m.Awaits inner n depth ∨ (m.IsCancelled inner ∧ m.AddedSince n late)
  | .error _ m => m.log.countP Interaction.isPrint < n ∨ m.AddedSince n late

/-- How much is said to the host: no more than `more` if the run is cancelled already, and otherwise
    less than `late` after it is cancelled. -/
structure Speaks (inner n depth more late : Nat) {α : Type} (x : Eval α) : Prop where
  cancelled (m : Machine) : m.IsCancelled inner → AddsUpTo inner more m.log (x m)
  awaiting (m : Machine) : m.Awaits inner n depth → EndsBy inner n depth late (x m)

section

variable {inner n depth more late : Nat} {α β : Type}

theorem Machine.Awaits.countP_lt {m : Machine} (h : m.Awaits inner n depth) :
    m.log.countP Interaction.isPrint < n := by
  obtain ⟨l, -, hn⟩ := h.left
  omega

theorem Machine.Added.trans {log : List Interaction} {more' : Nat} {m m' : Machine}
    (h : m.Added log more) (h' : m'.Added m.log more') : m'.Added log (more + more') := by
  obtain ⟨said, hlog, hsaid⟩ := h
  obtain ⟨said', hlog', hsaid'⟩ := h'
  refine ⟨said' ++ said, ?_, by rw [List.length_append]; omega⟩
  rw [hlog', hlog, List.append_assoc]

theorem Machine.AddedSince.trans {m m' : Machine} (h : m.AddedSince n late)
    (h' : m'.Added m.log more) : m'.AddedSince n (late + more) := by
  obtain ⟨since, shown, before, hlog, hn, hsince⟩ := h
  obtain ⟨said, hlog', hsaid⟩ := h'
  refine ⟨said ++ since, shown, before, ?_, hn, by rw [List.length_append]; omega⟩
  rw [hlog', hlog, List.append_assoc]

theorem AddsUpTo.mono {log : List Interaction} {more' : Nat} {result : EStateM.Result Unwind Machine α}
    (h : AddsUpTo inner more log result) (hmore : more ≤ more') : AddsUpTo inner more' log result := by
  have hlonger {m : Machine} (h : m.Added log more) : m.Added log more' := by
    obtain ⟨said, hlog, hsaid⟩ := h
    exact ⟨said, hlog, by omega⟩
  cases result with
  | ok => exact h.imp_right hlonger
  | error => exact hlonger h

theorem EndsBy.mono {late' : Nat} {result : EStateM.Result Unwind Machine α}
    (h : EndsBy inner n depth late result) (hlate : late ≤ late') :
    EndsBy inner n depth late' result := by
  have hlater {m : Machine} (h : m.AddedSince n late) : m.AddedSince n late' := by
    obtain ⟨since, shown, before, hlog, hn, hsince⟩ := h
    exact ⟨since, shown, before, hlog, hn, by omega⟩
  cases result with
  | ok => exact h.imp_right (And.imp_right hlater)
  | error => exact h.imp_right hlater

/-- What is said after something was said. -/
theorem AddsUpTo.after {log : List Interaction} {more' : Nat} {m : Machine}
    {result : EStateM.Result Unwind Machine α} (h : AddsUpTo inner more' m.log result)
    (hadded : m.Added log more) : AddsUpTo inner (more + more') log result := by
  cases result with
  | ok => exact h.imp_right hadded.trans
  | error => exact hadded.trans h

/-- What is said after the run was cancelled comes late. -/
theorem AddsUpTo.since {m : Machine} {result : EStateM.Result Unwind Machine α}
    (h : AddsUpTo inner more m.log result) (hsince : m.AddedSince n late) :
    EndsBy inner n depth (late + more) result := by
  cases result with
  | ok => exact .inr (h.imp_right hsince.trans)
  | error => exact .inr (hsince.trans h)

namespace Speaks

theorem mono {more' late' : Nat} {x : Eval α} (h : Speaks inner n depth more late x)
    (hmore : more ≤ more') (hlate : late ≤ late') : Speaks inner n depth more' late' x :=
  ⟨fun m hm => (h.cancelled m hm).mono hmore, fun m hm => (h.awaiting m hm).mono hlate⟩

/-- What is said late by the first of two things, and then by the second one. -/
theorem bind_add {more' late' : Nat} {x : Eval α} {f : α → Eval β}
    (hx : Speaks inner n depth more late x) (hf : ∀ a, Speaks inner n depth more' late' (f a)) :
    Speaks inner n depth (more + more') (max (late + more') late') (x >>= f) := by
  constructor
  · intro m hm
    have hxm := hx.cancelled m hm
    simp only [Bind.bind, EStateM.bind]
    cases hrun : x m with
    | error u m' =>
      rw [hrun] at hxm
      have hend : AddsUpTo inner more m.log (.error u m' : EStateM.Result Unwind Machine β) := hxm
      exact hend.mono (by omega)
    | ok a m' =>
      rw [hrun] at hxm
      obtain ⟨hm', hadded⟩ := hxm
      exact ((hf a).cancelled m' hm').after hadded
  · intro m hm
    have hxm := hx.awaiting m hm
    simp only [Bind.bind, EStateM.bind]
    cases hrun : x m with
    | error u m' =>
      rw [hrun] at hxm
      have hend : EndsBy inner n depth late (.error u m' : EStateM.Result Unwind Machine β) := hxm
      exact hend.mono (by omega)
    | ok a m' =>
      rw [hrun] at hxm
      rcases hxm with hawaits | ⟨hm', hsince⟩
      · exact ((hf a).awaiting m' hawaits).mono (by omega)
      · -- the second one begins after the run was cancelled, and adds to what was said since
        exact (((hf a).cancelled m' hm').since hsince).mono (by omega)

/-- Things that say nothing once the run is cancelled. -/
theorem bind {x : Eval α} {f : α → Eval β} (hx : Speaks inner n depth 0 late x)
    (hf : ∀ a, Speaks inner n depth 0 late (f a)) : Speaks inner n depth 0 late (x >>= f) :=
  (hx.bind_add hf).mono (by omega) (by omega)

/-- Something that says nothing once the run is cancelled, and then something that does. -/
theorem bindLast {late' : Nat} {x : Eval α} {f : α → Eval β} (hx : Speaks inner n depth 0 late x)
    (hf : ∀ a, Speaks inner n depth more late' (f a)) (hlate : late + more ≤ late') :
    Speaks inner n depth more late' (x >>= f) :=
  (hx.bind_add hf).mono (by omega) (by omega)

/-- Once the run is cancelled, nothing behind a check is done. -/
theorem check (place : Position) {f : Unit → Eval α} (hf : Speaks inner n depth more late (f ())) :
    Speaks inner n depth 0 late (tick place >>= f) := by
  constructor
  · intro m hm
    have hstop : m.watchdog.stop? = some .cancelled := if_pos hm.cancelled
    obtain ⟨u, hu, -⟩ := tick_of_stops place hstop
    simp only [Bind.bind, EStateM.bind, hu]
    exact ⟨[], rfl, Nat.le_refl 0⟩
  · intro m hm
    simp only [Bind.bind, EStateM.bind]
    cases hstop : m.watchdog.stop? with
    | some why =>
      -- the run ends for another reason, before it is cancelled
      obtain ⟨u, hu, -⟩ := tick_of_stops place hstop
      rw [hu]
      exact .inl hm.countP_lt
    | none =>
      rw [tick_of_passes hstop]
      exact hf.awaiting _ ⟨hm.closures, hm.calls, by simp [Watchdog.tick, hm.uncancelled], hm.left⟩

/-- One more call is active. -/
theorem within {x : Eval α} (hx : Speaks inner n depth more late x) (call : Call) :
    Speaks inner n (depth + 1) more late (within call x) := by
  constructor
  · intro m hm
    have hend := hx.cancelled { m with calls := call :: m.calls } ⟨hm.closures, hm.cancelled⟩
    simp only [Eval.within]
    cases hrun : x { m with calls := call :: m.calls } with
    | error u m' =>
      rw [hrun] at hend
      exact hend
    | ok a m' =>
      rw [hrun] at hend
      exact ⟨⟨hend.1.closures, hend.1.cancelled⟩, hend.2⟩
  · intro m hm
    have hcalls := hm.calls
    -- inside, one more call is on the stack, and `depth` is one less
    have hinside : Machine.Awaits inner n depth { m with calls := call :: m.calls } :=
      ⟨hm.closures, by simp only [List.length_cons]; omega, hm.uncancelled, hm.left⟩
    have hend := hx.awaiting _ hinside
    simp only [Eval.within]
    cases hrun : x { m with calls := call :: m.calls } with
    | error u m' =>
      rw [hrun] at hend
      exact hend
    | ok a m' =>
      rw [hrun] at hend
      rcases hend with hawaits | ⟨hm', hsince⟩
      · have hcalls := hawaits.calls
        exact .inl ⟨hawaits.closures, by simp only [List.length_tail]; omega, hawaits.uncancelled,
          hawaits.left⟩
      · exact .inr ⟨⟨hm'.closures, hm'.cancelled⟩, hsince⟩

end Speaks

/-! ## Operations -/

/-- What neither talks to the host nor makes a function. -/
private theorem speaks_of_keeps {x : Eval α}
    (h : ∀ m, match x m with
      | .ok _ m' => m'.watchdog = m.watchdog ∧ m'.log = m.log ∧ m'.cancelAfter = m.cancelAfter ∧
          m'.calls = m.calls ∧ m'.maxCalls = m.maxCalls ∧ m'.heap.closures = m.heap.closures
      | .error _ m' => m'.log = m.log) : Speaks inner n depth more late x := by
  constructor
  · intro m hm
    have hkeeps := h m
    split at hkeeps
    · next hrun =>
      obtain ⟨hwatchdog, hlog, -, -, -, hclosures⟩ := hkeeps
      rw [hrun]
      exact ⟨⟨hclosures ▸ hm.closures, hwatchdog ▸ hm.cancelled⟩, [], hlog, Nat.zero_le _⟩
    · next hrun =>
      rw [hrun]
      exact ⟨[], hkeeps, Nat.zero_le _⟩
  · intro m hm
    have hkeeps := h m
    split at hkeeps
    · next hrun =>
      obtain ⟨hwatchdog, hlog, hcancel, hcalls, hmax, hclosures⟩ := hkeeps
      rw [hrun]
      refine .inl ⟨hclosures ▸ hm.closures, ?_, hwatchdog ▸ hm.uncancelled, ?_⟩
      · rw [hmax, hcalls]
        exact hm.calls
      · rw [hcancel, hlog]
        exact hm.left
    · next hrun =>
      rw [hrun]
      exact .inl (hkeeps ▸ hm.countP_lt)

theorem speaks_pure (a : α) : Speaks inner n depth 0 late (pure a : Eval α) :=
  speaks_of_keeps fun _ => ⟨rfl, rfl, rfl, rfl, rfl, rfl⟩

theorem Speaks.bind_pure {x : Eval α} (hx : Speaks inner n depth more late x) (f : α → β) :
    Speaks inner n depth more late (x >>= fun a => pure (f a)) := by
  have hpure (a : α) : Speaks inner n depth 0 0 (pure (f a) : Eval β) := speaks_pure (f a)
  exact (hx.bind_add hpure).mono (by omega) (by omega)

theorem speaks_outOfFuel : Speaks inner n depth more late (throw .outOfFuel : Eval α) :=
  speaks_of_keeps fun _ => rfl

theorem speaks_fail (place : Position) (cause : ErrorCause) :
    Speaks inner n depth more late (fail place cause : Eval α) :=
  speaks_of_keeps fun _ => rfl

theorem speaks_fromHeap (look : Heap → α) : Speaks inner n depth more late (fromHeap look) :=
  speaks_of_keeps fun _ => ⟨rfl, rfl, rfl, rfl, rfl, rfl⟩

theorem speaks_readHeap (place : Position) (look : Heap → Except ErrorCause α) :
    Speaks inner n depth more late (readHeap place look) := by
  refine speaks_of_keeps fun m => ?_
  simp only [readHeap]
  cases look m.heap with
  | ok a => exact ⟨rfl, rfl, rfl, rfl, rfl, rfl⟩
  | error cause => rfl

theorem speaks_onHeap (place : Position) {operation : Heap → Outcome α}
    (h : KeepsClosures operation) : Speaks inner n depth more late (onHeap place operation) := by
  refine speaks_of_keeps fun m => ?_
  simp only [onHeap]
  cases hrun : operation m.heap with
  | ok a heap => exact ⟨rfl, rfl, rfl, rfl, rfl, h _ _ _ hrun⟩
  | error why heap => cases why <;> rfl

theorem speaks_openScope (scope : Scope) : Speaks inner n depth more late (openScope scope) :=
  speaks_of_keeps fun _ => ⟨rfl, rfl, rfl, rfl, rfl, rfl⟩

theorem speaks_find? (scope : Scope) (name : Text) :
    Speaks inner n depth more late (find? scope name) :=
  speaks_of_keeps fun _ => ⟨rfl, rfl, rfl, rfl, rfl, rfl⟩

theorem speaks_find (scope : Scope) (name : Text) (place : Position) :
    Speaks inner n depth 0 late (find scope name place) := by
  refine (speaks_find? scope name).bind fun found => ?_
  cases found with
  | some v => exact speaks_pure v
  | none => exact speaks_fail place _

theorem speaks_define (scope : Scope) (name : Text) (value : Value) :
    Speaks inner n depth more late (define scope name value) :=
  speaks_of_keeps fun _ => ⟨rfl, rfl, rfl, rfl, rfl, rfl⟩

theorem speaks_declare (scope : Scope) (name : Text) (binding : Binding) (place : Position) :
    Speaks inner n depth more late (declare scope name binding place) := by
  refine speaks_of_keeps fun m => ?_
  simp only [declare]
  cases m.frames.declareFault? name scope <;> simp [fail]

theorem speaks_assign (scope : Scope) (name : Text) (value : Value) (place : Position) :
    Speaks inner n depth more late (assign scope name value place) := by
  refine speaks_of_keeps fun m => ?_
  simp only [assign]
  cases m.frames.assignFault? name scope with
  | none => exact ⟨rfl, rfl, rfl, rfl, rfl, rfl⟩
  | some fault => cases fault <;> simp [fail]

theorem speaks_checkCalls (place : Position) : Speaks inner n depth more late (checkCalls place) := by
  refine speaks_of_keeps fun m => ?_
  by_cases hdeep : m.maxCalls < m.calls.length
  · simp [checkCalls, hdeep, fail]
  · simp [checkCalls, hdeep]

theorem speaks_newClosure {closure : Closure} (h : Command.callNestingAll closure.body ≤ inner + 1) :
    Speaks inner n depth more late (newClosure closure) := by
  have hpush {closures : Array Closure}
      (hclosures : ∀ c ∈ closures, Command.callNestingAll c.body ≤ inner + 1) :
      ∀ c ∈ closures.push closure, Command.callNestingAll c.body ≤ inner + 1 := by
    intro c hc
    rcases Array.mem_push.mp hc with hc | rfl
    · exact hclosures c hc
    · exact h
  constructor
  · exact fun m hm => ⟨⟨hpush hm.closures, hm.cancelled⟩, [], rfl, Nat.zero_le _⟩
  · exact fun m hm => .inl ⟨hpush hm.closures, hm.calls, hm.uncancelled, hm.left⟩

/-- A print may be the one after which the run is cancelled. -/
theorem speaks_print (shown : Text) : Speaks inner n depth 1 1 (print shown) := by
  constructor
  · intro m hm
    have hadded {m' : Machine} (hlog : m'.log = .print shown :: m.log) : m'.Added m.log 1 :=
      ⟨[.print shown], hlog, Nat.le_refl 1⟩
    simp only [print]
    rcases m.cancelAfter with _ | _ | _ | l
    · exact ⟨⟨hm.closures, hm.cancelled⟩, hadded rfl⟩
    · exact ⟨⟨hm.closures, hm.cancelled⟩, hadded rfl⟩
    · exact ⟨⟨hm.closures, rfl⟩, hadded rfl⟩
    · exact ⟨⟨hm.closures, hm.cancelled⟩, hadded rfl⟩
  · intro m hm
    obtain ⟨l, hleft, hn⟩ := hm.left
    simp only [print, hleft]
    cases l with
    | zero =>
      -- this is the print after which the run is cancelled, and nothing was said since
      exact .inr ⟨⟨hm.closures, rfl⟩, [], shown, m.log, rfl, hn, Nat.one_pos⟩
    | succ l =>
      refine .inl ⟨hm.closures, hm.calls, hm.uncancelled, l, rfl, ?_⟩
      rw [List.countP_cons_of_pos rfl]
      omega

theorem speaks_input (prompt : Text) : Speaks inner n depth 1 1 (input prompt) := by
  -- after the signal, and before it; a request is no print
  constructor
  · intro m hm
    have hadded {m' : Machine} (hlog : m'.log = .input prompt :: m.log) : m'.Added m.log 1 :=
      ⟨[.input prompt], hlog, Nat.le_refl 1⟩
    simp only [input]
    cases m.answers with
    | nil => exact hadded rfl
    | cons => exact ⟨⟨hm.closures, hm.cancelled⟩, hadded rfl⟩
  · intro m hm
    have hcount : (Interaction.input prompt :: m.log).countP Interaction.isPrint =
        m.log.countP Interaction.isPrint := List.countP_cons_of_neg (by simp [Interaction.isPrint])
    obtain ⟨l, hleft, hn⟩ := hm.left
    simp only [input]
    cases m.answers with
    | nil => exact .inl (hcount ▸ hm.countP_lt)
    | cons answer answers =>
      exact .inl ⟨hm.closures, hm.calls, hm.uncancelled, l, hleft, by rw [hcount]; exact hn⟩

/-- In a function that is found, calls nest no deeper than in any other. -/
theorem speaks_look (ref : Nat) {f : Option Closure → Eval α} (hnone : Speaks inner n depth more late (f none))
    (hsome : ∀ closure, Command.callNestingAll closure.body ≤ inner + 1 →
      Speaks inner n depth more late (f (some closure))) :
    Speaks inner n depth more late (fromHeap (fun h => h.closures[ref]?) >>= f) := by
  constructor <;> intro m hm <;> simp only [Bind.bind, EStateM.bind, fromHeap]
  · cases hfound : m.heap.closures[ref]? with
    | none => exact hnone.cancelled m hm
    | some closure =>
      exact (hsome closure (hm.closures closure (Array.mem_of_getElem? hfound))).cancelled m hm
  · cases hfound : m.heap.closures[ref]? with
    | none => exact hnone.awaiting m hm
    | some closure =>
      exact (hsome closure (hm.closures closure (Array.mem_of_getElem? hfound))).awaiting m hm

theorem speaks_bindParameters (scope : Scope) (parameters : List Text) :
    ∀ values, Speaks inner n depth 0 late (bindParameters scope parameters values) := by
  induction parameters with
  | nil => exact fun _ => speaks_pure ()
  | cons p ps ih =>
    intro values
    cases values with
    | nil => exact (speaks_define scope p .undefined).bind fun _ => ih []
    | cons v vs => exact (speaks_define scope p v).bind fun _ => ih vs

theorem speaks_hoist (scope : Scope) {commands : List Command}
    (h : Command.callNestingAll commands ≤ inner + 1) :
    Speaks inner n depth 0 late (hoist scope commands) := by
  induction commands with
  | nil => exact speaks_pure ()
  | cons c rest ih =>
    simp only [Command.callNestingAll] at h
    have hrest := ih (by omega)
    cases c with
    | function place name namePlace parameters isAsync body =>
      simp only [Command.callNesting] at h
      refine (speaks_newClosure ?_).bind fun v => (speaks_define scope name v).bind fun _ => hrest
      show Command.callNestingAll body ≤ inner + 1
      omega
    | _ => exact hrest

theorem speaks_bindDeclared (scope : Scope) (kind : BindingKind) (name : Text) (value : Value)
    (place : Position) : Speaks inner n depth more late (bindDeclared scope kind name value place) := by
  cases kind with
  | «let» => exact speaks_declare scope name _ place
  | const => exact speaks_declare scope name _ place
  | var => exact speaks_define scope name value

theorem speaks_unary (operator : UnaryOperator) (value : Value) :
    Speaks inner n depth 0 late (unary operator value) := by
  cases operator <;> simp only [Eval.unary]
  case not | typeOf | await => exact speaks_pure _
  case negate | plus => exact speaks_fromHeap _

theorem speaks_callMethod (object : Value) (method : Text) (values : List Value)
    (description : Text) (place : Position) :
    Speaks inner n depth more late (callMethod object method values description place) := by
  unfold Eval.callMethod
  split
  · exact speaks_fail place _
  · exact speaks_fail place _
  · split
    · next hmethod => exact speaks_onHeap place (Heap.method?_keepsClosures hmethod values)
    · exact speaks_fail place _

/-- A native function talks to the host at most once. -/
theorem speaks_callNative (function : Native) (values : List Value) (place : Position) :
    Speaks inner n depth 1 1 (callNative function values place) := by
  cases function with
  | print =>
    exact (speaks_fromHeap _).bindLast (fun shown => (speaks_print shown).bind_pure _) (Nat.le_refl 1)
  | input =>
    exact (speaks_fromHeap _).bindLast (fun prompt => (speaks_input prompt).bind_pure _) (Nat.le_refl 1)
  | _ =>
    simp only [Eval.callNative]
    exact speaks_onHeap place (Heap.callNative_keepsClosures _ values)

end

end Pseudocode.Script
