import Pseudocode.Proofs.OrderlyPlans
import Pseudocode.Proofs.TracedFailures

/-!
# The active calls

A run keeps account of the calls that it is in. A call is active from the moment in which it is
entered until it is left, however it is left, so what a state has for its active calls are the calls
that the run has entered by then. There is a bound on how many there are, and the trace of an error
has one line for each of them.

* `Plan.Visits.length_calls_le`   how many calls are active at most
* `Plan.Visits.exists_madeCall`   an active call has been made where its site says
* `Failure.traceLines_eq`         the lines of a trace
* `Program.accounts_for_calls`    the calls and the errors of a run
-/

namespace Pseudocode.Script

section

variable {α : Type} {n : Nat} {p : Plan α} {site made : Option Position} {s : Stage} {m m' : Machine}
  {calls : List Call} {x : Moment}

/-! ## The bound on calls -/

/-- Once it is checked that a call may be entered, it may be. -/
private theorem Stage.isChecked_after {o : Operation α} {a : α} (hrun : o.perform m = .ok a m')
    (hchecked : s.isChecked = true → m.calls.length ≤ m.maxCalls)
    (hafter : (s.after o a).isChecked = true) : m.calls.length ≤ m.maxCalls := by
  cases o with
  | checkCalls place =>
    by_contra hmany
    simp only [Operation.perform, Eval.checkCalls, if_pos (Nat.lt_of_not_le hmany)] at hrun
    cases hrun
  | _ => exact hchecked hafter

/-- Calls are only entered after a check, so there is never more than one above the limit. -/
theorem Plan.Visits.length_calls_le (h : p.Visits n m calls x m') (horderly : p.IsOrderly site made s)
    (hchecked : s.isChecked = true → m.calls.length ≤ m.maxCalls)
    (hm : m.calls.length ≤ m.maxCalls + 1) : m'.calls.length ≤ m.maxCalls + 1 := by
  induction h generalizing s site made with
  | step => exact hm
  | afterStep hrun _ ih =>
    obtain ⟨hcalls, hmax⟩ := Operation.calls_of_ok hrun
    rw [← hmax]
    refine ih (horderly.2 _) (fun hafter => ?_) (by rwa [hcalls, hmax])
    rw [hcalls, hmax]
    exact Stage.isChecked_after hrun hchecked hafter
  | @task _ _ _ entered _ _ _ =>
    cases entered with
    | none => exact hm
    | some call => exact Nat.succ_le_succ (hchecked (horderly.2.1 call rfl).1)
  | @insideTask _ _ _ entered t _ _ _ _ _ _ ih =>
    refine ih t.plan_isOrderly nofun ?_
    cases entered with
    | none => exact hm
    | some call => exact Nat.succ_le_succ (hchecked (horderly.2.1 call rfl).1)
  | afterTask hrun _ ih =>
    obtain ⟨hcalls, hmax⟩ := Task.calls_of_ok hrun
    rw [← hmax]
    exact ih (horderly.2.2.2 _) (by rwa [hcalls, hmax]) (by rwa [hcalls, hmax])

theorem Task.Visits.length_calls_le {t : Task α} (h : t.Visits n m calls x m')
    (hm : m.calls.length ≤ m.maxCalls + 1) : m'.calls.length ≤ m.maxCalls + 1 :=
  Plan.Visits.length_calls_le h t.isOrderly nofun hm

/-! ## Where calls are made -/

/-- In those calls a call is made at a place. -/
def Plan.MakesCall (n : Nat) (p : Plan α) (m : Machine) (calls : List Call) (place : Position) :
    Prop :=
  ∃ k scope callee operands m',
    p.Visits n m calls (.task k (.evaluate scope (.call place callee operands))) m'

/-- A task that makes a call is the value of a call. -/
private theorem Task.makesCall {β : Type} {t : Task β} {next : β → Plan α} {entered : Option Call}
    {place : Position} (h : t.madeCall? = some place) :
    (Plan.task entered t next).MakesCall n m entered.toList place := by
  cases t with
  | evaluate scope e =>
    cases e with
    | call _ callee operands =>
      cases h
      exact ⟨n, scope, callee, operands, _, .task⟩
    | _ => cases h
  | _ => cases h

/-- An active call has been made where its site says, in the calls that were active before it. The
    first one to be entered may have been made by what the plan is a part of. -/
theorem Plan.Visits.exists_madeCall (h : p.Visits n m calls x m')
    (horderly : p.IsOrderly site made s) {i : Nat} {call : Call} (hcall : calls[i]? = some call) :
    (i + 1 = calls.length ∧ (site = some call.site ∨ made = some call.site)) ∨
      p.MakesCall n m (calls.drop (i + 1)) call.site := by
  induction h generalizing s site made i call with
  | step => cases hcall
  | afterStep hrun _ ih =>
    refine (ih (horderly.2 _) hcall).imp_right ?_
    rintro ⟨k, scope, callee, operands, m', hvisits⟩
    exact ⟨k, scope, callee, operands, m', .afterStep hrun hvisits⟩
  | @task _ _ _ entered _ _ _ =>
    cases entered with
    | none => cases hcall
    | some entered =>
      obtain ⟨rfl, rfl⟩ : i = 0 ∧ entered = call := by
        simpa [List.getElem?_singleton] using hcall
      exact .inl ⟨rfl, .inl (horderly.2.1 entered rfl).2.1⟩
  | @insideTask _ _ n entered t next m _ calls _ hinside ih =>
    by_cases hi : i < calls.length
    · -- the call was entered in the task
      rw [List.getElem?_append_left hi] at hcall
      rw [List.drop_append_of_le_length (show i + 1 ≤ calls.length from hi), List.length_append]
      rcases ih t.plan_isOrderly hcall with ⟨hlast, hsite | hmade⟩ | ⟨k, scope, callee, operands, m', hvisits⟩
      · cases entered with
        | none => exact .inl ⟨hlast, .inr (horderly.2.2.1 _ hsite)⟩
        | some entered =>
          have hnone := (horderly.2.1 entered rfl).2.2
          rw [hsite] at hnone
          cases hnone
      · right
        rw [hlast, List.drop_length, List.nil_append]
        exact Task.makesCall hmade
      · exact .inr ⟨k, scope, callee, operands, m', .insideTask hvisits⟩
    · -- the call is that of the task
      cases entered with
      | none =>
        rw [Option.toList_none, List.append_nil] at hcall
        exact absurd (List.getElem?_eq_some_iff.1 hcall).1 hi
      | some entered =>
        rw [List.getElem?_append_right (Nat.le_of_not_lt hi)] at hcall
        obtain ⟨hzero, rfl⟩ : i - calls.length = 0 ∧ entered = call := by
          simpa [List.getElem?_singleton] using hcall
        refine .inl ⟨?_, .inl (horderly.2.1 entered rfl).2.1⟩
        simp only [Option.toList_some, List.length_append, List.length_singleton]
        omega
  | afterTask hrun _ ih =>
    refine (ih (horderly.2.2.2 _) hcall).imp_right ?_
    rintro ⟨k, scope, callee, operands, m', hvisits⟩
    exact ⟨k, scope, callee, operands, m', .afterTask hrun hvisits⟩

theorem Task.Visits.exists_madeCall {t : Task α} (h : t.Visits n m calls x m') {i : Nat}
    {call : Call} (hcall : calls[i]? = some call) :
    (i + 1 = calls.length ∧ t.callSite? = some call.site) ∨
      (liftM t : Plan α).MakesCall n m (calls.drop (i + 1)) call.site := by
  rcases Plan.Visits.exists_madeCall h t.isOrderly hcall with ⟨hlast, hnone | hsite⟩ | hmade
  · cases hnone
  · exact .inl ⟨hlast, hsite⟩
  · exact .inr hmade

end

/-! ## Traces -/

/-- The line of a trace for a call that is at a place. -/
def Call.traceLine (call : Call) (place : Position) : Text :=
  text "    at " ++ call.name ++ text " (<sandbox>:" ++ place.toText ++ [')']

/-- The innermost call is at the place of the error, and every other one where it made the call
    before it. -/
theorem Failure.traceLines_eq (place : Position) (calls : List Call) :
    traceLines place calls = List.zipWith Call.traceLine calls (place :: calls.map Call.site) := by
  induction calls generalizing place with
  | nil => rfl
  | cons call outer ih =>
    rw [traceLines, ih, List.map_cons, List.zipWith_cons_cons]
    rfl

/-! ## Moments of a run -/

namespace Operation

variable {α : Type}

/-- Where an operation may fail. -/
def place? : Operation α → Option Position
  | .tick place | .fail place _ | .onHeap place _ | .readHeap place _ | .declare _ _ _ place
  | .assign _ _ _ place | .checkCalls place => some place
  | _ => none

/-- An operation fails at its place, in the calls that are active. -/
theorem of_failed {o : Operation α} {f : Failure} {m m' : Machine}
    (h : o.perform m = .error (.failed f) m') : f.calls = m.calls ∧ o.place? = some f.position := by
  cases o <;> simp only [perform, Eval.tick, Eval.fail, Eval.onHeap, Eval.fromHeap, Eval.readHeap,
    Eval.openScope, Eval.find?, Eval.define, Eval.declare, Eval.assign, Eval.newClosure,
    Eval.checkCalls, Eval.print, Eval.input] at h
  all_goals
    repeat' split at h
    all_goals cases h <;> exact ⟨rfl, rfl⟩

end Operation

namespace Moment

/-- The error that an operation throws. -/
def thrown? : Moment → Machine → Option Failure
  | .step o, m => failure? (o.perform m)
  | .task _ _, _ => none

/-- Where what is done may fail. -/
def place? : Moment → Option Position
  | .step o => o.place?
  | .task _ _ => none

theorem after_calls (x : Moment) (m : Machine) : (x.after m).calls = m.calls := by
  cases x with
  | step o => exact (o.perform_calls m).1
  | task n t => exact (t.perform_calls n m).1

theorem of_thrown {x : Moment} {m : Machine} {f : Failure} (h : x.thrown? m = some f) :
    f.calls = m.calls ∧ x.place? = some f.position := by
  cases x with
  | step o =>
    obtain ⟨m', hrun⟩ := failure?_eq_some.1 h
    exact Operation.of_failed hrun
  | task => cases h

end Moment

/-! ## Runs -/

/-- What a run visits, it visits in its statements, after them, or in a call of the function that the
    program is wrapped in. -/
theorem Program.Visits.cases {program : Program} {n : Nat} {m m' : Machine} {calls : List Call}
    {x : Moment} (h : program.Visits n m calls x m') :
    (∃ inner, calls = inner ++ [⟨topLevel, nowhere⟩] ∧
      program.Visits n m [⟨topLevel, nowhere⟩] (.task n (.runBlock Machine.globalScope program))
        (m.enter (some ⟨topLevel, nowhere⟩)) ∧
      (Task.runBlock Machine.globalScope program).Visits n (m.enter (some ⟨topLevel, nowhere⟩))
        inner x m') ∨
    calls = [] ∨
    ∃ ref values place m₀, program.Visits n m [] (.task n (.callClosure ref values place)) m₀ ∧
      (Task.callClosure ref values place).Visits n m₀ calls x m' := by
  change Plan.Visits n (.task (some ⟨topLevel, nowhere⟩) (.runBlock Machine.globalScope program)
    fun _ => .step (.find? Machine.globalScope entryPoint) Plan.callEntry) m calls x m' at h
  cases h with
  | task => exact .inl ⟨[], rfl, .task, .task⟩
  | insideTask hinside => exact .inl ⟨_, rfl, .task, Task.Visits.of_plan hinside⟩
  | afterTask hrun h =>
    right
    cases h with
    | step => exact .inl rfl
    | @afterStep _ _ _ _ _ _ _ _ found _ _ hfind h =>
      -- only a function is called
      rcases found with _ | (_ | _ | _ | _ | _ | _ | ref | _ | _)
      case some.function =>
        cases h with
        | step => exact .inl rfl
        | @afterStep _ _ _ _ _ _ _ _ found _ _ hlook h =>
          cases found with
          | none => cases h
          | some closure =>
            have hcall : program.Visits n m [] (.task n (.callClosure ref _ closure.place)) _ :=
              .afterTask hrun (.afterStep hfind (.afterStep hlook .task))
            cases h with
            | task => exact .inl rfl
            | insideTask hinside =>
              rw [Option.toList_none, List.append_nil]
              exact .inr ⟨_, _, _, _, hcall, Task.Visits.of_plan hinside⟩
            | afterTask _ h => cases h
      all_goals cases h

section

variable {program : Program} {n : Nat} {m m' : Machine} {calls : List Call} {x : Moment}

/-- A run never enters more than one call above the limit. -/
theorem Program.Visits.length_calls_le (h : program.Visits n m calls x m') (hm : m.calls = []) :
    m'.calls.length ≤ m.maxCalls + 1 := by
  rcases h.cases with ⟨inner, -, -, hinner⟩ | rfl | ⟨ref, values, place, m₀, hcall, hinner⟩
  · exact hinner.length_calls_le (by simp [hm])
  · rw [h.calls_eq.1, hm]
    exact Nat.zero_le _
  · obtain ⟨hcalls, hmax⟩ := hcall.calls_eq
    rw [← hmax]
    exact hinner.length_calls_le (by simp [hcalls, hm])

/-- Every call that a run is in, but for the outermost one, was made where its site says. -/
theorem Program.Visits.exists_madeCall (h : program.Visits n m calls x m') {i : Nat} {call : Call}
    (hcall : calls[i]? = some call) (hi : i + 1 < calls.length) :
    program.plan.MakesCall n m (calls.drop (i + 1)) call.site := by
  rcases h.cases with ⟨inner, rfl, hblock, hinner⟩ | rfl | ⟨ref, values, place, m₀, hclosure, hinner⟩
  · have hlength : i < inner.length := by simpa using hi
    rw [List.getElem?_append_left hlength] at hcall
    rcases hinner.exists_madeCall hcall with ⟨-, hnone⟩ | ⟨k, scope, callee, operands, m', hvisits⟩
    · cases hnone
    · rw [List.drop_append_of_le_length (show i + 1 ≤ inner.length from hlength)]
      exact ⟨k, scope, callee, operands, m', hblock.trans hvisits⟩
  · cases hcall
  · rcases hinner.exists_madeCall hcall with ⟨hlast, -⟩ | ⟨k, scope, callee, operands, m', hvisits⟩
    · exact absurd hlast (Nat.ne_of_lt hi)
    · refine ⟨k, scope, callee, operands, m', ?_⟩
      rw [← List.append_nil (calls.drop (i + 1))]
      exact hclosure.trans hvisits

end

/-- What a run has to account for when it is about to do `x` in a state `m`, having entered `calls`. -/
structure Program.Accounts (program : Program) (fuel : Nat) (g : Grant) (calls : List Call)
    (x : Moment) (m : Machine) : Prop where
  /-- The active calls are those that were entered. -/
  active : m.calls = calls
  bounded : calls.length ≤ g.maxCalls + 1
  /-- Every call but the outermost one was made where its site says, in the calls around it. -/
  made : ∀ i call, calls[i]? = some call → i + 1 < calls.length →
    program.plan.MakesCall fuel g.start (calls.drop (i + 1)) call.site
  /-- What is begun ends in the calls that it began in, however it ends. -/
  left : (x.after m).calls = calls
  /-- The trace of an error has one line for every active call. -/
  traced : ∀ f, x.thrown? m = some f → x.place? = some f.position ∧
    f.stack = Text.join ['\n'] ((f.cause.name.toText ++ text ": " ++ f.cause.message) ::
      List.zipWith Call.traceLine calls (f.position :: calls.map Call.site))

/-- A run accounts for its calls in every state that it visits. At its end no call is active, and the
    error that it ends with was thrown on its way. -/
theorem Program.accounts_for_calls (program : Program) (fuel : Nat) (g : Grant) :
    (∀ calls x m, program.Visits fuel g.start calls x m → program.Accounts fuel g calls x m) ∧
    (machineOf (runProgram fuel program g.start)).calls = [] ∧
    ∀ f, failure? (runProgram fuel program g.start) = some f →
      ∃ calls x m, program.Visits fuel g.start calls x m ∧ x.thrown? m = some f := by
  refine ⟨fun calls x m h => ?_, ?_, fun f hf => ?_⟩
  · have hcalls : m.calls = calls := h.calls_eq.1.trans (List.append_nil calls)
    refine ⟨hcalls, ?_, fun i call => h.exists_madeCall, (x.after_calls m).trans hcalls, fun f hf => ?_⟩
    · rw [← hcalls]
      exact h.length_calls_le rfl
    · obtain ⟨hsame, hplace⟩ := Moment.of_thrown hf
      refine ⟨hplace, ?_⟩
      rw [Failure.stack, Failure.traceLines_eq, hsame, hcalls]
      rfl
  · rw [runProgram_eq_perform]
    exact (program.plan.perform_calls fuel g.start).1
  · obtain ⟨m', hrun⟩ := failure?_eq_some.1 hf
    rw [runProgram_eq_perform] at hrun
    obtain ⟨β, o, calls, m₁, m₂, hvisits, herror⟩ := Plan.isUnwoundOnWay_of_error (by simp) hrun
    exact ⟨calls, .step o, m₁, hvisits, failure?_eq_some.2 ⟨m₂, herror⟩⟩

/-- An error that is thrown in as many calls as may be active. -/
theorem Program.accounts_for_nested_calls :
    ∃ program f calls x m,
      Program.parse (text "function g() { a; }\nfunction f() { g(); }\nf();") = .ok program ∧
      program.Visits 40 (Grant.start ⟨.counting 20 0, 2, [], none⟩) calls x m ∧
      x.thrown? m = some f ∧ calls.length = 2 + 1 ∧
      f.stack = Text.join ['\n'] [text "ReferenceError: a is not defined",
        text "    at g (<sandbox>:1:16)", text "    at f (<sandbox>:2:16)",
        text "    at <anonymous> (<sandbox>:3:1)"] := by
  obtain ⟨program, f, hparse, hrun, hseen⟩ :=
    Program.exists_of_seen (text "function g() { a; }\nfunction f() { g(); }\nf();") 2
      (fun f => (f.cause, f.position, f.calls.map fun call => (call.name, call.site)))
      (.undefinedName (text "a"), ⟨1, 16⟩,
        [(text "g", ⟨2, 16⟩), (text "f", ⟨3, 1⟩), (text "<anonymous>", nowhere)]) (by decide +kernel)
  obtain ⟨haccounts, -, hthrown⟩ := Program.accounts_for_calls program 40 ⟨.counting 20 0, 2, [], none⟩
  obtain ⟨calls, x, m, hvisits, hx⟩ := hthrown f hrun
  have hcalls : f.calls = calls := (Moment.of_thrown hx).1.trans (haccounts calls x m hvisits).active
  obtain ⟨-, htrace⟩ := (haccounts calls x m hvisits).traced f hx
  simp only [Prod.mk.injEq, hcalls] at hseen
  obtain ⟨hcause, hposition, hnames⟩ := hseen
  obtain ⟨g, f', script, rfl⟩ := List.length_eq_three.1 (by simpa using congrArg List.length hnames)
  simp only [List.map_cons, List.map_nil, List.cons.injEq, Prod.mk.injEq, and_true] at hnames
  obtain ⟨⟨hg, hgSite⟩, ⟨hf, hfSite⟩, hscript, hscriptSite⟩ := hnames
  refine ⟨program, f, _, x, m, hparse, hvisits, hx, rfl, ?_⟩
  rw [htrace, hcause, hposition]
  simp only [List.map_cons, List.map_nil, List.zipWith_cons_cons, List.zipWith_nil_left,
    Call.traceLine, hg, hgSite, hf, hfSite, hscript]
  decide +kernel

end Pseudocode.Script
