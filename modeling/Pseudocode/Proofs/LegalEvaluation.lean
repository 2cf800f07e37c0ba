import Pseudocode.Proofs.EvaluationProperty

/-!
# Evaluation of legal programs

A program that has been checked never gets to what its checks exclude, on whatever machine it runs
and wherever it is stopped.

* `Machine.IsLegal`                the functions of a machine are legal
* `isClosed_staysLegal`            evaluation keeps them so, and never misses a target
* `Program.jumps_stay_inside`      no jump leaves a function or the program
-/

namespace Pseudocode.Script

open Eval

/-- The body of a function is legal. -/
def Closure.IsLegal (c : Closure) : Prop := ∀ s ∈ c.body, s.IsLegal false true

theorem Closure.IsLegal.isLegalAt {c : Closure} (h : c.IsLegal) :
    c.IsLegalAt (fun _ => True) fun _ => True :=
  ⟨trivial, fun s hs => (h s hs).isLegalAt⟩

/-- Every function that has been made is legal. -/
def Machine.IsLegal (m : Machine) : Prop := ∀ c ∈ m.heap.closures, c.IsLegal

/-- The run was left because a value had nowhere to go. -/
def Unwind.IsNoTarget : Unwind → Prop
  | .failed f => f.cause = .noTarget
  | _ => False

/-- The functions are legal at the end of something, and no value has had nowhere to go. -/
def EndsLegally {α : Type} : EStateM.Result Unwind Machine α → Prop
  | .ok _ m => m.IsLegal
  | .error u m => m.IsLegal ∧ ¬u.IsNoTarget

/-- What happens makes legal functions only, and no value has nowhere to go. -/
def StaysLegal : EvalProperty := fun _ x => ∀ m : Machine, m.IsLegal → EndsLegally (x m)

section

variable {α β : Type}

private theorem StaysLegal.bind {x : Eval α} {f : α → Eval β} (hx : StaysLegal α x)
    (hf : ∀ a, StaysLegal β (f a)) : StaysLegal β (x >>= f) := by
  intro m hm
  have hxm := hx m hm
  simp only [Bind.bind, EStateM.bind]
  cases hrun : x m with
  | ok a m' =>
    rw [hrun] at hxm
    exact hf a m' hxm
  | error u m' =>
    rw [hrun] at hxm
    exact hxm

private theorem StaysLegal.within {x : Eval α} (hx : StaysLegal α x) (call : Call) :
    StaysLegal α (within call x) := by
  intro m hm
  have hxm := hx { m with calls := call :: m.calls } hm
  simp only [Eval.within]
  cases hrun : x { m with calls := call :: m.calls } <;> rw [hrun] at hxm <;> exact hxm

private theorem staysLegal_fail (place : Position) (cause : ErrorCause) (hcause : cause ≠ .noTarget) :
    StaysLegal α (fail place cause) :=
  fun _ hm => ⟨hm, hcause⟩

private theorem staysLegal_onHeap (place : Position) {operation : Heap → Outcome α}
    (hoperation : Heap.IsOperation operation) : StaysLegal α (onHeap place operation) := by
  intro m hm
  simp only [onHeap]
  cases hrun : operation m.heap with
  | ok a heap =>
    intro c hc
    exact hm c (hoperation.keepsClosures _ _ _ hrun ▸ hc)
  | error why heap =>
    obtain rfl := hoperation.refusesWhole _ _ _ hrun
    cases why with
    | conflict => exact ⟨hm, id⟩
    | error cause =>
      refine ⟨hm, fun hcause => ?_⟩
      -- a missing target is a syntax error, and no operation on the heap reports one
      obtain rfl : cause = .noTarget := hcause
      exact hoperation.noSyntaxError _ _ _ hrun rfl

private theorem staysLegal_readHeap (place : Position) {look : Heap → Except ErrorCause α}
    (hlook : ∀ h cause, look h = .error cause → cause.name ≠ .syntaxError) :
    StaysLegal α (readHeap place look) := by
  intro m hm
  simp only [readHeap]
  cases hrun : look m.heap with
  | ok a => exact hm
  | error cause =>
    refine ⟨hm, fun hcause => hlook _ _ hrun ?_⟩
    rw [show cause = .noTarget from hcause]
    rfl

/-- A new function goes to the end of the heap. -/
private theorem staysLegal_newClosure {closure : Closure} (hclosure : closure.IsLegal) :
    StaysLegal Value (newClosure closure) := by
  intro m hm c hc
  rcases Array.mem_push.1 hc with hc | rfl
  · exact hm c hc
  · exact hclosure

private theorem staysLegal_look (ref : Nat) {f : Option Closure → Eval α} (hnone : StaysLegal α (f none))
    (hsome : ∀ closure, closure.IsLegal → StaysLegal α (f (some closure))) :
    StaysLegal α (fromHeap (fun h => h.closures[ref]?) >>= f) := by
  intro m hm
  simp only [Bind.bind, EStateM.bind, fromHeap]
  cases hfound : m.heap.closures[ref]? with
  | none => exact hnone m hm
  | some closure => exact hsome closure (hm closure (Array.mem_of_getElem? hfound)) m hm

/-- Legal statements make legal functions, and none of them misses a target. -/
theorem isClosed_staysLegal : StaysLegal.IsClosed (fun _ => True) fun _ => True where
  pure a := fun _ hm => hm
  outOfFuel _ := fun _ hm => ⟨hm, id⟩
  bind := StaysLegal.bind
  tick _ := by
    intro m hm
    simp only [tick]
    split
    · exact hm
    · exact ⟨hm, id⟩
    · exact ⟨hm, id⟩
  within _ hx := hx.within _
  fail _ place _ _ hcause := staysLegal_fail place _ hcause
  onHeap _ := staysLegal_onHeap _
  fromHeap look := fun _ hm => hm
  getIndex _ object key := staysLegal_readHeap _ (Heap.getIndex_noSyntaxError object key)
  getMember _ object name := staysLegal_readHeap _ (Heap.getMember_noSyntaxError object name)
  openScope scope := fun _ hm => hm
  find? scope name := fun _ hm => hm
  define scope name value := fun _ hm => hm
  declare scope name binding place _ := by
    intro m hm
    simp only [declare]
    split
    · exact staysLegal_fail place (.redeclared name) (by simp) m hm
    · exact hm
  assign scope name value place _ := by
    intro m hm
    simp only [assign]
    split
    · exact hm
    · exact hm
    · exact staysLegal_fail place .constantAssignment (by simp) m hm
  newClosure hclosure := staysLegal_newClosure fun s hs => (hclosure.body s hs).legal
  look ref _ hnone hsome :=
    staysLegal_look ref hnone fun closure hclosure => hsome closure hclosure.isLegalAt
  checkCalls _ := by
    intro m hm
    simp only [checkCalls]
    split
    · exact staysLegal_fail _ .callDepth (by simp) m hm
    · exact hm
  print shown := by
    intro m hm
    simp only [print]
    split <;> exact hm
  input prompt := by
    intro m hm
    simp only [input]
    split
    · exact hm
    · exact ⟨hm, id⟩

end

/-! ## Runs -/

/-- A function body ends normally or by a return, unless it is unwound. -/
def Closure.EndsInside (c : Closure) : Prop :=
  ∀ n scope m flow m', runBlock n scope c.body m = .ok flow m' →
    flow = .normal ∨ ∃ value, flow = .returned value

theorem Closure.IsLegal.endsInside {c : Closure} (h : c.IsLegal) : c.EndsInside := by
  intro n scope m flow m' hrun
  have hflow := (flow_isLegal n).runBlock scope false true c.body h m flow m' hrun
  cases flow with
  | normal => exact .inl rfl
  | returned value => exact .inr ⟨value, rfl⟩
  | broken | continued => cases hflow

/-- No other error reads like a missing target. -/
theorem ErrorCause.eq_noTarget_of_message {cause : ErrorCause}
    (h : cause.message = text "Invalid left-hand side in assignment") : cause = .noTarget := by
  have hsecond : cause.message[1]? = some 'n' := by rw [h]; rfl
  have hlast : cause.message.getLast? = some 't' := by rw [h]; rfl
  -- a name in a message leaves its first letters alone, or its last one
  cases cause with
  | noTarget => rfl
  | undefinedName | notFunction | notConstructor | unavailable | arrayLength =>
    simp [message, text] at hlast
  | constantAssignment | fixedDigits | callDepth | redeclared | readOfNullish | writeOfNullish =>
    simp [message, text] at hsecond

/-- The checks of a program leave nothing to its run. Every function that a run has made when it ends,
    or is stopped, has a body that ends normally or by a return, unless it is unwound; so `break` and
    `continue` never get to a call. The statements of the program itself never end by a jump. And no
    run fails because an assignment has no target. -/
theorem Program.jumps_stay_inside {t : Text} {program : Program}
    (hparse : Program.parse t = .ok program) (fuel : Nat) (w : Watchdog) (maxCalls : Nat)
    (answers : List Text) (cancelAfter : Option Nat) :
    let x := runProgram fuel program (Machine.start w maxCalls answers cancelAfter)
    (∀ c ∈ (machineOf x).heap.closures, c.EndsInside) ∧
    (∀ n scope m flow m', runBlock n scope program m = .ok flow m' → flow = .normal) ∧
    ∀ f m', x = .error (.failed f) m' →
      f.cause.message ≠ text "Invalid left-hand side in assignment" := by
  intro x
  have hlegal := Program.isLegal_of_parse hparse
  have hends : EndsLegally x :=
    isClosed_staysLegal.runProgram fuel hlegal _ fun c hc => absurd hc (Array.not_mem_empty c)
  refine ⟨fun c hc => ?_, fun n scope m flow m' hrun => ?_, fun f m' hx hmessage => ?_⟩
  -- every function has been made from a legal statement, however the run has ended
  · have hmade : (machineOf x).IsLegal := by
      cases hx : x with
      | ok a m' =>
        rw [hx] at hends
        exact hends
      | error u m' =>
        rw [hx] at hends
        exact hends.1
    exact (hmade c hc).endsInside
  -- around the program there is neither a loop nor a function to jump out of
  · have hflow := (flow_isLegal n).runBlock scope false false program hlegal m flow m' hrun
    cases flow with
    | normal => rfl
    | returned | broken | continued => cases hflow
  · rw [hx] at hends
    exact hends.2 (ErrorCause.eq_noTarget_of_message hmessage)

/-- A function that leaves a loop and then returns. -/
theorem Program.jumps_stay_inside_loop :
    ∃ program, Program.parse (text "function f(a) { while (a) break; return a; } f(true);")
        = .ok program ∧
      let x := runProgram 40 program (Machine.start (.counting 20 0) 5 [] none)
      (machineOf x).heap.closures.size = 1 ∧ ∀ c ∈ (machineOf x).heap.closures, c.EndsInside := by
  let program : Program := [.function ⟨1, 1⟩ (text "f") ⟨1, 10⟩ [text "a"] false
      [.whileLoop (.identifier ⟨1, 24⟩ (text "a")) (.breaking ⟨1, 27⟩),
        .returning ⟨1, 34⟩ (some (.identifier ⟨1, 41⟩ (text "a")))],
    .expression (.call ⟨1, 46⟩ (.identifier ⟨1, 46⟩ (text "f")) [.bool ⟨1, 48⟩ true])]
  have hparse : Program.parse (text "function f(a) { while (a) break; return a; } f(true);")
      = .ok program := by
    with_unfolding_all rfl
  exact ⟨program, hparse, by decide +kernel,
    (Program.jumps_stay_inside hparse 40 (.counting 20 0) 5 [] none).1⟩

end Pseudocode.Script
