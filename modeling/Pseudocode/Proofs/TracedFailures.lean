import Pseudocode.Proofs.EvaluationProperty
import Pseudocode.Proofs.Traces
import Pseudocode.Report.Compose

/-!
# Failures in traces

A run that fails does so at a position of its program, in a call. So its report is about that
position, unless the message of the error has a place in it.

* `isClosed_staysAt`                what is done, is done at the positions of the program
* `Program.unwind_isAt`             where a run is left
* `Program.inStack?_of_failed`      the place that is read back when a run has failed
-/

namespace Pseudocode.Script

open Eval

/-! ## Evaluation -/

/-- Where a run is left: it fails in a call, and that and the end of its time is at a position of one
    kind. -/
def Unwind.IsAt (R : Position → Prop) : Unwind → Prop
  | .failed f => R f.position ∧ InCall f.calls
  | .timedOut place => R place
  | _ => True

/-- What is done in the functions that have been made is done at positions of one kind. -/
def Machine.IsMadeAt (R : Position → Prop) (m : Machine) : Prop :=
  ∀ c ∈ m.heap.closures, c.IsLegalAt R IsIdentifier

/-- Something that is done in some calls ends there, unless the run is left. -/
def EndsInCalls {α : Type} (R : Position → Prop) (calls : List Call) :
    EStateM.Result Unwind Machine α → Prop
  | .ok _ m => m.IsMadeAt R ∧ m.calls = calls
  | .error u _ => u.IsAt R

/-- What is done in calls of one kind is done at positions of one kind. -/
def StaysAt (R : Position → Prop) (C : List Call → Prop) : EvalProperty := fun _ x =>
  ∀ m : Machine, m.IsMadeAt R → C m.calls → EndsInCalls R m.calls (x m)

section

variable {R : Position → Prop} {C : List Call → Prop} {α : Type}

/-- Operations that always end with a value change neither the calls nor the functions. -/
theorem isSteady_staysAt (R : Position → Prop) (C : List Call → Prop) :
    (StaysAt R C).IsSteady R IsIdentifier where
  pure a := fun _ hm _ => ⟨hm, rfl⟩
  -- the first part leaves the calls as they were, so the second one starts from them
  bind hx hf := by
    intro m hm hC
    have hxm := hx m hm hC
    simp only [Bind.bind, EStateM.bind]
    split
    · rename_i hrun
      rw [hrun] at hxm
      obtain ⟨hm', hcalls⟩ := hxm
      rw [← hcalls]
      exact hf _ _ hm' (hcalls ▸ hC)
    · rename_i hrun
      rw [hrun] at hxm
      exact hxm
  fromHeap look := fun _ hm _ => ⟨hm, rfl⟩
  openScope scope := fun _ hm _ => ⟨hm, rfl⟩
  find? scope name := fun _ hm _ => ⟨hm, rfl⟩
  define scope name value := fun _ hm _ => ⟨hm, rfl⟩
  look ref f hnone hsome := by
    intro m hm hC
    simp only [Bind.bind, EStateM.bind, fromHeap]
    cases hfound : m.heap.closures[ref]? with
    | none => exact hnone m hm hC
    | some closure => exact hsome closure (hm closure (Array.mem_of_getElem? hfound)) m hm hC

/-- What is done inside of a call does not depend on the calls around it. -/
theorem StaysAt.within {x : Eval α} (hx : StaysAt R InCall α x) {call : Call} (hcall : call.IsNamed) :
    StaysAt R C α (within call x) := by
  intro m hm _
  have hxm := hx { m with calls := call :: m.calls } hm hcall
  simp only [Eval.within]
  cases hrun : x { m with calls := call :: m.calls } with
  | ok a m' =>
    rw [hrun] at hxm
    obtain ⟨hm', hcalls⟩ := hxm
    exact ⟨hm', by rw [hcalls]; rfl⟩
  | error u m' =>
    rw [hrun] at hxm
    exact hxm

theorem staysAt_fail {place : Position} (hplace : R place) (cause : ErrorCause) :
    StaysAt R InCall α (fail place cause) :=
  fun _ _ hcalls => ⟨hplace, hcalls⟩

theorem staysAt_readHeap {place : Position} (hplace : R place) (look : Heap → Except ErrorCause α) :
    StaysAt R InCall α (readHeap place look) := by
  intro m hm hcalls
  simp only [readHeap]
  split
  · exact ⟨hm, rfl⟩
  · exact staysAt_fail hplace _ m hm hcalls

/-- In a call, legal statements do everything at their own positions. -/
theorem isClosed_staysAt (R : Position → Prop) : (StaysAt R InCall).IsClosed R IsIdentifier where
  toIsSteady := isSteady_staysAt R InCall
  outOfFuel _ := fun _ _ _ => trivial
  tick hplace := by
    intro m hm hcalls
    simp only [tick]
    split
    · exact ⟨hm, rfl⟩
    · exact hplace
    · trivial
  within hname hx := hx.within (.inl hname)
  fail _ _ hplace cause _ := staysAt_fail hplace cause
  onHeap hplace operation hoperation := by
    intro m hm hcalls
    simp only [onHeap]
    split
    · rename_i hrun
      exact ⟨fun c hc => hm c (hoperation.keepsClosures _ _ _ hrun ▸ hc), rfl⟩
    · exact ⟨hplace, hcalls⟩
    · trivial
  getIndex hplace object key := staysAt_readHeap hplace _
  getMember hplace object name := staysAt_readHeap hplace _
  declare scope name binding place hplace := by
    intro m hm hcalls
    simp only [declare]
    split
    · exact staysAt_fail hplace _ m hm hcalls
    · exact ⟨hm, rfl⟩
  assign scope name value place hplace := by
    intro m hm hcalls
    simp only [assign]
    split
    · exact ⟨hm, rfl⟩
    · exact ⟨hm, rfl⟩
    · exact staysAt_fail hplace _ m hm hcalls
  newClosure hclosure := by
    intro m hm _
    refine ⟨fun c hc => ?_, rfl⟩
    rcases Array.mem_push.1 hc with hc | rfl
    · exact hm c hc
    · exact hclosure
  checkCalls hplace := by
    intro m hm hcalls
    simp only [checkCalls]
    split
    · exact staysAt_fail hplace _ m hm hcalls
    · exact ⟨hm, rfl⟩
  print shown := by
    intro m hm _
    simp only [print]
    split <;> exact ⟨hm, rfl⟩
  input prompt := by
    intro m hm _
    simp only [input]
    split
    · exact ⟨hm, rfl⟩
    · trivial

end

/-! ## Runs -/

/-- The outermost call is always allowed. -/
theorem staysAt_callClosure {R : Position → Prop} (n ref : Nat) (values : List Value)
    (place : Position) : StaysAt R (· = []) Value (callClosure n ref values place) := by
  cases n with
  | zero => exact fun _ _ _ => trivial
  | succ n =>
    have hsteady := isSteady_staysAt R (· = [])
    rw [callClosure_eq_enter]
    refine hsteady.bind (fun m hm hcalls => ?_) fun _ =>
      hsteady.enter (fun scope closure hclosure => ?_) ref values
    · rw [checkCalls, if_neg (by rw [hcalls]; exact Nat.not_lt_zero _)]
      exact ⟨hm, rfl⟩
    · exact StaysAt.within (((isClosed_staysAt R).holds n).runBlock _ _ _ _ hclosure.body)
        (.inl hclosure.name)

/-- The failure that something has ended with. -/
def failure? {α : Type} : EStateM.Result Unwind Machine α → Option Failure
  | .error (.failed f) _ => some f
  | _ => none

theorem failure?_eq_some {α : Type} {x : EStateM.Result Unwind Machine α} {f : Failure} :
    failure? x = some f ↔ ∃ m, x = .error (.failed f) m := by
  constructor
  · intro h
    cases x with
    | ok a m => cases h
    | error u m =>
      cases u with
      | failed f =>
        cases h
        exact ⟨m, rfl⟩
      | _ => cases h
  · rintro ⟨m, rfl⟩
    rfl

/-- A run is left at a position of its program. The position of the function that the program is
    wrapped in does not count. -/
theorem Program.unwind_isAt {R : Position → Prop} {program : Program}
    (hlegal : ∀ c ∈ program, c.IsLegalAt R IsIdentifier false false) (fuel : Nat) (w : Watchdog)
    (maxCalls : Nat) (answers : List Text) (cancelAfter : Option Nat) {u : Unwind} {m' : Machine}
    (hrun : runProgram fuel program (Machine.start w maxCalls answers cancelAfter) = .error u m') :
    u.IsAt R := by
  have hblock : StaysAt R InCall Flow (runBlock fuel Machine.globalScope program) :=
    ((isClosed_staysAt R).holds fuel).runBlock _ _ _ program hlegal
  have hends := (isSteady_staysAt R (· = [])).runProgram (hblock.within (.inr rfl))
    (staysAt_callClosure fuel) (Machine.start w maxCalls answers cancelAfter)
    (fun c hc => absurd hc (Array.not_mem_empty c)) rfl
  rw [hrun] at hends
  exact hends

/-- The statements of a program are legal, and everything in them stands at places of its text. -/
theorem Program.isLegalAt_of_parse {t : Text} {program : Program}
    (h : Program.parse t = .ok program) :
    ∀ c ∈ program, c.IsLegalAt (fun p => ∃ offset < t.length, p = Position.scan t offset)
      IsIdentifier false false :=
  fun c hc => ⟨Program.isLegal_of_parse h c hc,
    (Program.everywhere_of_parse h c hc).weaken fun _ _ => trivial⟩

/-- When a run has failed, the place that is read back from the trace is that of the failure, and the
    report of the failure is about that place. But a place in the message of the error comes first:
    then that one is read back. -/
theorem Program.inStack?_of_failed {t : Text} {program : Program}
    (hparse : Program.parse t = .ok program) (fuel : Nat) (w : Watchdog) (maxCalls : Nat)
    (answers : List Text) (cancelAfter : Option Nat) {f : Failure}
    (hrun : failure? (runProgram fuel program (Machine.start w maxCalls answers cancelAfter)) =
      some f) :
    (Location.firstDigits? f.cause.message = none →
      (t.length + 1 < 2 ^ 64 → Location.inStack? f.stack = some f.position) ∧
      ∀ translation : Translation,
        let report := Report.ofError translation f.cause.name f.cause.message f.stack f.position
        let place := Location.find? translation f.position.line (some f.position.column)
        report.line = place.map Location.line ∧ report.column = place.bind Location.column ∧
          report.originalText = place.map Location.text) ∧
    ∀ line column, Location.firstDigits? f.cause.message = some (line, column) →
      Location.inStack? f.stack =
        do return ⟨← Location.number? line, ← Location.number? column⟩ := by
  obtain ⟨m, hrun⟩ := failure?_eq_some.1 hrun
  obtain ⟨⟨offset, hoffset, hposition⟩, hcalls⟩ :=
    Program.unwind_isAt (Program.isLegalAt_of_parse hparse) fuel w maxCalls answers cancelAfter hrun
  -- the first place in the stack is that of the failure, unless the message holds one
  refine ⟨fun hmessage => ⟨fun hlength => ?_, fun translation => ?_⟩, fun line column hmessage => ?_⟩
  · have hline := Position.line_scan_le (Nat.le_of_lt hoffset)
    have hcolumn := Position.column_scan_le (Nat.le_of_lt hoffset)
    rw [← hposition] at hline hcolumn
    exact Failure.inStack?_eq_position hcalls hmessage (Nat.lt_of_le_of_lt hline hlength)
      (Nat.lt_of_le_of_lt hcolumn hlength)
  · simp only [Report.ofError, Failure.inStack?_getD hcalls hmessage]
    exact ⟨rfl, rfl, rfl⟩
  · rw [Failure.inStack?_stack hcalls, hmessage]
    rfl

/-- What is seen of the failure of a short run. -/
theorem Program.exists_of_seen {α : Type} (t : Text) (maxCalls : Nat) (look : Failure → α) (seen : α)
    (h : ((Program.parse t).toOption.bind fun program =>
      (failure? (runProgram 40 program (Machine.start (.counting 20 0) maxCalls [] none))).map look) =
        some seen) :
    ∃ program f, Program.parse t = .ok program ∧
      failure? (runProgram 40 program (Machine.start (.counting 20 0) maxCalls [] none)) = some f ∧
      look f = seen := by
  obtain ⟨program, hparse, hends⟩ := Option.bind_eq_some_iff.1 h
  obtain ⟨f, hrun, hfailure⟩ := Option.map_eq_some_iff.1 hends
  refine ⟨program, f, ?_, hrun, hfailure⟩
  cases hresult : Program.parse t with
  | ok parsed =>
    rw [hresult] at hparse
    rw [Option.some.inj hparse]
  | error fault =>
    rw [hresult] at hparse
    cases hparse

/-- A function fails that is called by the statements of the program. -/
theorem Program.inStack?_of_failed_call :
    ∃ program f, Program.parse (text "function f(a) { b(a); }\nf(1);") = .ok program ∧
      failure? (runProgram 40 program (Machine.start (.counting 20 0) 5 [] none)) = some f ∧
      Location.inStack? f.stack = some ⟨1, 17⟩ := by
  obtain ⟨program, f, hparse, hrun, hfailure⟩ :=
    exists_of_seen (text "function f(a) { b(a); }\nf(1);") 5 (fun f => (f.cause, f.position))
      (.undefinedName (text "b"), ⟨1, 17⟩) (by decide +kernel)
  obtain ⟨hcause, hposition⟩ := Prod.mk.inj hfailure
  have hplace := Program.inStack?_of_failed hparse 40 (.counting 20 0) 5 [] none hrun
  rw [hcause, hposition] at hplace
  exact ⟨program, f, hparse, hrun, (hplace.1 (by decide)).1 (by decide)⟩

/-- A key that looks like a place is taken for the place of the failure. -/
theorem Program.inStack?_ne_position :
    ∃ program f, Program.parse (text "let a = 1;\nnull['<sandbox>:1:1'];") = .ok program ∧
      failure? (runProgram 40 program (Machine.start (.counting 20 0) 5 [] none)) = some f ∧
      f.position = ⟨2, 5⟩ ∧ Location.inStack? f.stack = some ⟨1, 1⟩ := by
  obtain ⟨program, f, hparse, hrun, hfailure⟩ :=
    exists_of_seen (text "let a = 1;\nnull['<sandbox>:1:1'];") 5
      (fun f => (f.position, Location.inStack? f.stack)) (⟨2, 5⟩, some ⟨1, 1⟩) (by decide +kernel)
  exact ⟨program, f, hparse, hrun, (Prod.mk.inj hfailure).1, (Prod.mk.inj hfailure).2⟩

end Pseudocode.Script
