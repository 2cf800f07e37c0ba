import Pseudocode.Proofs.Interruption

/-!
# Runs that are cut short

A run that is granted more by its host does what it did before, and goes on where it was cut short.
So what a run has shown to its host stays true whatever the host would have granted besides.

* `Grant.Covers`                     one grant is as good as another, up to some reasons to stop
* `Truncates`                        what happens under a grant, beside what happens under a better one
* `Program.run_truncates`            a run under a better grant is the same, or it continues the run
* `Program.run_append`               a run with more answers is the same, or it goes on
* `Program.cancellation_truncates`   cancelling a run changes nothing but where it ends
* `Program.maxCalls_transparent`     the bound on calls changes nothing but where a run ends

That is a relation between two machines again, and the host only ever sees more.
-/

namespace Pseudocode

/-! ## Cancelled watchdogs -/

namespace Watchdog

/-- The first watchdog is the second one, cancelled no later. -/
def CancelsBefore (v w : Watchdog) : Prop :=
  ∃ cancelIn, v = { w with cancelIn } ∧ ∀ j, w.cancelIn = some j → ∃ i, cancelIn = some i ∧ i ≤ j

theorem CancelsBefore.cancelIn (w : Watchdog) (cancelIn : Option Nat) :
    CancelsBefore { w with cancelIn } { w with cancelIn := none } :=
  ⟨cancelIn, rfl, fun _ hj => by cases hj⟩

theorem CancelsBefore.refl (w : Watchdog) : w.CancelsBefore w :=
  ⟨w.cancelIn, rfl, fun j hj => ⟨j, hj, Nat.le_refl j⟩⟩

theorem CancelsBefore.cancel {v w : Watchdog} (h : v.CancelsBefore w) : v.cancel.CancelsBefore w := by
  obtain ⟨cancelIn, rfl, -⟩ := h
  exact ⟨some 0, rfl, fun j _ => ⟨0, rfl, Nat.zero_le j⟩⟩

theorem CancelsBefore.cancel_both {v w : Watchdog} (h : v.CancelsBefore w) :
    v.cancel.CancelsBefore w.cancel := by
  obtain ⟨cancelIn, rfl, -⟩ := h
  exact .refl w.cancel

theorem CancelsBefore.pause_resume {v w : Watchdog} (h : v.CancelsBefore w) :
    v.pause.resume.CancelsBefore w.pause.resume := by
  obtain ⟨cancelIn, rfl, hbefore⟩ := h
  exact ⟨cancelIn, rfl, hbefore⟩

theorem CancelsBefore.tick {v w : Watchdog} (h : v.CancelsBefore w) :
    v.tick.CancelsBefore w.tick := by
  obtain ⟨cancelIn, rfl, hbefore⟩ := h
  -- both countdowns go on by one, and stay at zero when they get there
  refine ⟨cancelIn.map (· - 1), rfl, fun j hj => ?_⟩
  obtain ⟨k, hk, rfl⟩ := Option.map_eq_some_iff.mp hj
  obtain ⟨i, rfl, hi⟩ := hbefore k hk
  exact ⟨i - 1, rfl, by omega⟩

/-- A check says the same under both, unless the first one is cancelled. -/
theorem CancelsBefore.stop? {v w : Watchdog} (h : v.CancelsBefore w) :
    v.stop? = some .cancelled ∨ v.stop? = w.stop? := by
  obtain ⟨cancelIn, rfl, hbefore⟩ := h
  by_cases hnow : cancelIn = some 0
  -- the first watchdog is cancelled now, whatever becomes of the second one
  · left
    simp [Watchdog.stop?, hnow]
  · right
    have hlater : w.cancelIn ≠ some 0 := by
      intro hzero
      obtain ⟨i, rfl, hi⟩ := hbefore 0 hzero
      exact hnow (by rw [Nat.le_zero.mp hi])
    simp only [Watchdog.stop?, hnow, hlater, if_false]
    rfl

end Watchdog

namespace Script

open Eval

/-! ## Grants -/

/-- What a host grants a run. -/
structure Grant where
  watchdog : Watchdog
  maxCalls : Nat
  answers : List Text
  cancelAfter : Option Nat

/-- What a machine has been granted. -/
def Machine.grant (m : Machine) : Grant := ⟨m.watchdog, m.maxCalls, m.answers, m.cancelAfter⟩

/-- A machine under another grant. -/
def Machine.under (m : Machine) (g : Grant) : Machine :=
  { m with
    watchdog := g.watchdog
    maxCalls := g.maxCalls
    answers := g.answers
    cancelAfter := g.cancelAfter }

/-- The machine before a run under a grant. -/
def Grant.start (g : Grant) : Machine := .start g.watchdog g.maxCalls g.answers g.cancelAfter

/-- The second grant gives at least as much as the first one. What it gives besides only matters to
    a run that the first one cuts short, and `Cut` are the ways in which that happens. -/
structure Grant.Covers (Cut : Unwind → Prop) (g g' : Grant) : Prop where
  watchdog : g.watchdog = g'.watchdog ∨ (Cut .cancelled ∧ g.watchdog.CancelsBefore g'.watchdog)
  maxCalls : g.maxCalls = g'.maxCalls ∨
    (g.maxCalls ≤ g'.maxCalls ∧ ∀ place calls, Cut (.failed ⟨.callDepth, place, calls⟩))
  answers : ∃ later, g'.answers = g.answers ++ later ∧ (later = [] ∨ Cut .cancelled)
  cancelAfter : g.cancelAfter = g'.cancelAfter ∨ (Cut .cancelled ∧ g'.cancelAfter = none)

/-- More answers only matter to a run that is cancelled for want of them. -/
theorem Grant.Covers.append (g : Grant) (later : List Text) :
    Grant.Covers (· = .cancelled) g { g with answers := g.answers ++ later } :=
  ⟨.inl rfl, .inl rfl, ⟨later, rfl, .inr rfl⟩, .inl rfl⟩

/-! ## What happens under two grants -/

/-- The machine at the end of something. -/
def machineOf {α : Type} : EStateM.Result Unwind Machine α → Machine
  | .ok _ m => m
  | .error _ m => m

/-- What happens under a grant, beside what happens under a better one. -/
inductive Truncates (Cut : Unwind → Prop) {α : Type} :
    EStateM.Result Unwind Machine α → EStateM.Result Unwind Machine α → Prop where
  | ok {a : α} {n : Machine} (g : Grant) :
    n.grant.Covers Cut g → Truncates Cut (.ok a n) (.ok a (n.under g))
  | error {u : Unwind} {n : Machine} (g : Grant) : Truncates Cut (.error u n) (.error u (n.under g))
  /-- The first side is cut short, and the second one may go on. -/
  | cut {u : Unwind} {n : Machine} {other : EStateM.Result Unwind Machine α} :
    Cut u → n.log <:+ (machineOf other).log → Truncates Cut (.error u n) other

/-- The right side does what the left one does under a grant that is no better. Nothing it has shown
    is taken back. -/
def Continues (Cut : Unwind → Prop) : EvalRelation := fun _ x y =>
  (∀ m, m.log <:+ (machineOf (y m)).log) ∧
    ∀ m g, m.grant.Covers Cut g → Truncates Cut (x m) (y (m.under g))

section

variable {Cut : Unwind → Prop} {α β : Type}

private theorem continues_bind {x y : Eval α} {f g : α → Eval β} (hxy : Continues Cut α x y)
    (hfg : ∀ a, Continues Cut β (f a) (g a)) : Continues Cut β (x >>= f) (y >>= g) := by
  refine ⟨fun m => ?_, fun m grant hcovers => ?_⟩
  · have hy := hxy.1 m
    simp only [bind, EStateM.bind]
    cases heq : y m with
    | error u n =>
      rw [heq] at hy
      exact hy
    | ok a n =>
      rw [heq] at hy
      exact hy.trans ((hfg a).1 n)
  · have hboth := hxy.2 m grant hcovers
    simp only [bind, EStateM.bind]
    generalize x m = left at hboth
    generalize y (m.under grant) = right at hboth
    cases hboth with
    | ok grant hcovers => exact (hfg _).2 _ grant hcovers
    | error grant => exact .error grant
    | cut hcut hlog =>
      -- the left side has ended, whatever the right side goes on with
      apply Truncates.cut hcut
      cases right with
      | error u n => exact hlog
      | ok a n => exact hlog.trans ((hfg a).1 n)

private theorem continues_within {x y : Eval α} (call : Call) (hxy : Continues Cut α x y) :
    Continues Cut α (within call x) (within call y) := by
  refine ⟨fun m => ?_, fun m g hcovers => ?_⟩
  · have hy := hxy.1 { m with calls := call :: m.calls }
    simp only [Eval.within]
    cases heq : y { m with calls := call :: m.calls } <;> rw [heq] at hy <;> exact hy
  · have hboth := hxy.2 { m with calls := call :: m.calls } g hcovers
    simp only [Eval.within]
    generalize x { m with calls := call :: m.calls } = left at hboth
    rw [show ({ m.under g with calls := call :: (m.under g).calls } : Machine)
      = Machine.under { m with calls := call :: m.calls } g from rfl]
    generalize y (Machine.under { m with calls := call :: m.calls } g) = right at hboth
    cases hboth with
    | ok g hcovers => exact .ok g hcovers
    | error g => exact .error g
    | cut hcut hlog => cases right <;> exact .cut hcut hlog

private theorem continues_tick (place : Position) :
    Continues Cut Unit (tick place) (tick place) := by
  refine ⟨fun m => ?_, fun m g hcovers => ?_⟩
  · simp only [tick]
    split <;> exact List.suffix_refl _
  -- the first side is cancelled here, or the check says the same on both sides
  have hwatchdog : m.watchdog.stop? = some .cancelled ∧ Cut .cancelled ∨
      m.watchdog.stop? = g.watchdog.stop? ∧
        Grant.Covers Cut { m.grant with watchdog := m.watchdog.tick }
          { g with watchdog := g.watchdog.tick } := by
    rcases hcovers.watchdog with hsame | ⟨hcut, hbefore⟩
    · right
      rw [show m.watchdog = g.watchdog from hsame]
      exact ⟨rfl, { hcovers with watchdog := .inl rfl }⟩
    · rcases hbefore.stop? with hcancelled | hsame
      · exact .inl ⟨hcancelled, hcut⟩
      · exact .inr ⟨hsame, { hcovers with watchdog := .inr ⟨hcut, hbefore.tick⟩ }⟩
  rcases hwatchdog with ⟨hcancelled, hcut⟩ | ⟨hsame, hticked⟩
  · rw [show tick place m = .error .cancelled m by simp only [tick, hcancelled]]
    apply Truncates.cut hcut
    simp only [tick, Machine.under]
    split <;> exact List.suffix_refl _
  · simp only [tick, Machine.under, hsame]
    split
    · exact .ok { g with watchdog := g.watchdog.tick } hticked
    · exact .error g
    · exact .error g

private theorem continues_onHeap (place : Position) (operation : Heap → Outcome α) :
    Continues Cut α (onHeap place operation) (onHeap place operation) := by
  refine ⟨fun m => ?_, fun m g hcovers => ?_⟩ <;> simp only [onHeap, Machine.under] <;>
    cases operation m.heap with
    | ok a heap => first | exact List.suffix_refl _ | exact .ok g hcovers
    | error why heap => cases why <;> first | exact List.suffix_refl _ | exact .error g

private theorem continues_readHeap (place : Position) (look : Heap → Except ErrorCause α) :
    Continues Cut α (readHeap place look) (readHeap place look) := by
  refine ⟨fun m => ?_, fun m g hcovers => ?_⟩ <;> simp only [readHeap, Machine.under] <;>
    cases look m.heap with
    | ok a => first | exact List.suffix_refl _ | exact .ok g hcovers
    | error cause => first | exact List.suffix_refl _ | exact .error g

private theorem continues_declare (scope : Scope) (name : Text) (binding : Binding)
    (place : Position) :
    Continues Cut Unit (declare scope name binding place) (declare scope name binding place) := by
  refine ⟨fun m => ?_, fun m g hcovers => ?_⟩ <;> simp only [declare, Machine.under] <;>
    cases m.frames.declareFault? name scope with
    | none => first | exact List.suffix_refl _ | exact .ok g hcovers
    | some fault => first | exact List.suffix_refl _ | exact .error g

private theorem continues_assign (scope : Scope) (name : Text) (value : Value) (place : Position) :
    Continues Cut Unit (assign scope name value place) (assign scope name value place) := by
  refine ⟨fun m => ?_, fun m g hcovers => ?_⟩ <;> simp only [assign, Machine.under] <;>
    cases m.frames.assignFault? name scope with
    | none => first | exact List.suffix_refl _ | exact .ok g hcovers
    | some fault =>
      cases fault <;> first | exact List.suffix_refl _ | exact .ok g hcovers | exact .error g

private theorem continues_checkCalls (place : Position) :
    Continues Cut Unit (checkCalls place) (checkCalls place) := by
  have hkeeps (m : Machine) : m.log <:+ (machineOf (checkCalls place m)).log := by
    simp only [checkCalls]
    split <;> exact List.suffix_refl _
  refine ⟨hkeeps, fun m g hcovers => ?_⟩
  by_cases hdeep : m.maxCalls < m.calls.length
  -- the lower bound is hit: so is the other one if it is the same, and else this is a cut
  · rw [show checkCalls place m = fail place .callDepth m from if_pos hdeep]
    rcases hcovers.maxCalls with hsame | ⟨-, hcut⟩
    · rw [show checkCalls place (m.under g) = fail place .callDepth (m.under g) from
        if_pos (by rwa [show m.maxCalls = g.maxCalls from hsame] at hdeep)]
      exact .error g
    · exact .cut (hcut place m.calls) (hkeeps (m.under g))
  -- nothing is hit, so nothing is hit with the higher bound
  · have hle : m.maxCalls ≤ g.maxCalls := hcovers.maxCalls.elim Nat.le_of_eq And.left
    rw [show checkCalls place m = .ok () m from if_neg hdeep,
      show checkCalls place (m.under g) = .ok () (m.under g) from
        if_neg (show ¬g.maxCalls < m.calls.length by omega)]
    exact .ok g hcovers

/-- A print after which the run may be cancelled. -/
private theorem print_of_counting (shown : Text) {m : Machine} {n : Nat}
    (h : m.cancelAfter = some (n + 1)) :
    print shown m = .ok () { m with
      log := .print shown :: m.log
      cancelAfter := some n
      watchdog := if n = 0 then m.watchdog.cancel else m.watchdog } := by
  simp only [print, h]

private theorem print_of_not_counting (shown : Text) {m : Machine}
    (h : ¬∃ n, m.cancelAfter = some (n + 1)) :
    print shown m = .ok () { m with log := .print shown :: m.log } := by
  simp only [print]
  split
  · rename_i n hn
    exact absurd ⟨n, hn⟩ h
  · rfl

private theorem continues_print (shown : Text) : Continues Cut Unit (print shown) (print shown) := by
  refine ⟨fun m => ?_, fun m g hcovers => ?_⟩
  · simp only [print]
    split <;> exact List.suffix_cons _ _
  by_cases hcount : ∃ n, m.cancelAfter = some (n + 1)
  · obtain ⟨n, hn⟩ := hcount
    rw [print_of_counting shown hn]
    rcases hcovers.cancelAfter with hsame | ⟨hcut, hnone⟩
    · -- either both sides are cancelled now, or neither is
      rw [print_of_counting shown (m := m.under g) (hsame.symm.trans hn)]
      refine .ok { g with
        cancelAfter := some n
        watchdog := if n = 0 then g.watchdog.cancel else g.watchdog }
        { hcovers with cancelAfter := .inl rfl, watchdog := ?_ }
      rcases hcovers.watchdog with hsame | ⟨hcut, hbefore⟩
      · left
        simp only [Machine.grant] at hsame ⊢
        rw [hsame]
      · refine .inr ⟨hcut, ?_⟩
        simp only [Machine.grant]
        split
        · exact hbefore.cancel_both
        · exact hbefore
    · -- the second side is never cancelled by a print
      rw [print_of_not_counting shown (m := m.under g) (by simp [Machine.under, hnone])]
      refine .ok g { hcovers with cancelAfter := .inr ⟨hcut, hnone⟩, watchdog := .inr ⟨hcut, ?_⟩ }
      have hbefore : m.watchdog.CancelsBefore g.watchdog := by
        rcases hcovers.watchdog with hsame | ⟨-, hbefore⟩
        · rw [← hsame]
          exact .refl _
        · exact hbefore
      simp only [Machine.grant]
      split
      · exact hbefore.cancel
      · exact hbefore
  -- a count that has ended, or was never started, is the same on both sides or is gone
  · have hcount' : ¬∃ n, g.cancelAfter = some (n + 1) := by
      rcases hcovers.cancelAfter with hsame | ⟨-, hnone⟩
      · rwa [← hsame]
      · simp [hnone]
    rw [print_of_not_counting shown hcount, print_of_not_counting shown (m := m.under g) hcount']
    exact .ok g hcovers

private theorem input_of_cons (prompt : Text) {m : Machine} {answer : Text} {answers : List Text}
    (h : m.answers = answer :: answers) :
    input prompt m = .ok answer { m with
      log := .input prompt :: m.log
      watchdog := m.watchdog.pause.resume
      answers } := by
  simp only [input, h]

private theorem input_of_nil (prompt : Text) {m : Machine} (h : m.answers = []) :
    input prompt m = .error .cancelled { m with
      log := .input prompt :: m.log
      watchdog := m.watchdog.pause.resume } := by
  simp only [input, h]

private theorem continues_input (prompt : Text) :
    Continues Cut Text (input prompt) (input prompt) := by
  have hgrows (m : Machine) : .input prompt :: m.log <:+ (machineOf (input prompt m)).log := by
    cases hanswers : m.answers with
    | nil => rw [input_of_nil prompt hanswers]; exact List.suffix_refl _
    | cons answer answers => rw [input_of_cons prompt hanswers]; exact List.suffix_refl _
  refine ⟨fun m => (List.suffix_cons _ _).trans (hgrows m), fun m g hcovers => ?_⟩
  obtain ⟨later, hlonger, hlater⟩ := hcovers.answers
  have hresumed : m.watchdog.pause.resume = g.watchdog.pause.resume ∨
      (Cut .cancelled ∧ m.watchdog.pause.resume.CancelsBefore g.watchdog.pause.resume) := by
    rcases hcovers.watchdog with hsame | ⟨hcut, hbefore⟩
    · exact .inl (by rw [show m.watchdog = g.watchdog from hsame])
    · exact .inr ⟨hcut, hbefore.pause_resume⟩
  cases hanswers : m.answers with
  | cons answer answers =>
    -- the second side begins with the answers of the first one, so it takes the same answer
    rw [show m.grant.answers = answer :: answers from hanswers] at hlonger
    rw [input_of_cons prompt hanswers, input_of_cons prompt (m := m.under g) hlonger]
    exact .ok { g with watchdog := g.watchdog.pause.resume, answers := answers ++ later }
      { hcovers with watchdog := hresumed, answers := ⟨later, rfl, hlater⟩ }
  | nil =>
    rw [show m.grant.answers = [] from hanswers, List.nil_append] at hlonger
    rw [input_of_nil prompt hanswers]
    rcases hlater with rfl | hcut
    · rw [input_of_nil prompt (m := m.under g) hlonger]
      exact .error { g with watchdog := g.watchdog.pause.resume }
    · -- here the two sides part, unless the second one has no answer either
      exact .cut hcut (hgrows (m.under g))

private theorem continues_isClosed : (Continues Cut).IsClosed (Continues Cut) where
  weaken h := h
  pure _ := ⟨fun _ => List.suffix_refl _, fun _ g h => .ok g h⟩
  bind := continues_bind
  bindAfter := continues_bind
  check place hfg := continues_bind (continues_tick place) hfg
  within := continues_within
  fail _ _ _ := ⟨fun _ => List.suffix_refl _, fun _ g _ => .error g⟩
  onHeap := continues_onHeap
  fromHeap _ := ⟨fun _ => List.suffix_refl _, fun _ g h => .ok g h⟩
  readHeap := continues_readHeap
  openScope _ := ⟨fun _ => List.suffix_refl _, fun _ g h => .ok g h⟩
  find? _ _ := ⟨fun _ => List.suffix_refl _, fun _ g h => .ok g h⟩
  define _ _ _ := ⟨fun _ => List.suffix_refl _, fun _ g h => .ok g h⟩
  declare := continues_declare
  assign := continues_assign
  newClosure _ := ⟨fun _ => List.suffix_refl _, fun _ g h => .ok g h⟩
  checkCalls := continues_checkCalls
  print := continues_print
  input := continues_input

/-! ## Runs -/

/-- A run under a better grant is the same, or it goes on where the run was cut short. -/
theorem Program.run_truncates (program : Program) {g g' : Grant} (hcovers : g.Covers Cut g')
    (hrunning : g.watchdog.running = true) (hrunning' : g'.watchdog.running = true) :
    let r := program.run g.start
    let r' := program.run g'.start
    r.log <+: r'.log ∧ (r' = r ∨ ∃ u, r.ending = .unwound u ∧ Cut u) := by
  intro r r'
  -- more fuel changes no run, so both are given what is enough for the two of them together
  let fuel := g.start.fuel program + g'.start.fuel program
  have hrespects : Respects (Continues Cut) fuel fuel :=
    respects continues_isClosed
      (fun α => ⟨fun _ => List.suffix_refl _, fun _ g _ => .error g⟩) _
  have hboth := (hrespects.runProgram continues_isClosed program).2 g.start g' hcovers
  have hleft : r = .ofEnd (runProgram fuel program g.start) :=
    run_eq_ofEnd_add program hrunning g.maxCalls g.answers g.cancelAfter _
  have hright : r' = .ofEnd (runProgram fuel program g'.start) := by
    rw [show fuel = g'.start.fuel program + g.start.fuel program from Nat.add_comm _ _]
    exact run_eq_ofEnd_add program hrunning' g'.maxCalls g'.answers g'.cancelAfter _
  rw [show g.start.under g' = g'.start from rfl] at hboth
  rw [hleft, hright]
  generalize runProgram fuel program g.start = x at hboth
  generalize runProgram fuel program g'.start = y at hboth
  cases hboth with
  | ok => exact ⟨List.prefix_refl _, .inl rfl⟩
  | error => exact ⟨List.prefix_refl _, .inl rfl⟩
  | cut hcut hlog =>
    refine ⟨?_, .inr ⟨_, rfl, hcut⟩⟩
    -- the machine keeps its log with the last event first
    cases y <;> exact List.reverse_prefix.2 hlog

end

/-- A run with more answers is the same, or it goes on where the run without them had to wait. -/
theorem Program.run_append (program : Program) {w : Watchdog} (hrunning : w.running = true)
    (maxCalls : Nat) (answers later : List Text) (cancelAfter : Option Nat) :
    let r := program.run (Machine.start w maxCalls answers cancelAfter)
    let r' := program.run (Machine.start w maxCalls (answers ++ later) cancelAfter)
    r' = r ∨ (r.ending = .unwound .cancelled ∧ r.log <+: r'.log) := by
  have hcovers : Grant.Covers (· = .cancelled) ⟨w, maxCalls, answers, cancelAfter⟩
      ⟨w, maxCalls, answers ++ later, cancelAfter⟩ := .append _ later
  obtain ⟨hlog, hsame | ⟨u, hend, rfl⟩⟩ := program.run_truncates hcovers hrunning hrunning
  · exact .inl hsame
  · exact .inr ⟨hend, hlog⟩

/-- Running out of answers and cancellation only cut a run short. With more answers, and without
    cancellation, a run shows all that it showed before. It does exactly the same, unless it was
    cancelled. The run may be cancelled after a print, or be found cancelled at any check. -/
theorem Program.cancellation_truncates (program : Program) {w : Watchdog}
    (hrunning : w.running = true) (maxCalls : Nat) (answers later : List Text)
    (cancelIn cancelAfter : Option Nat) :
    (let r := program.run (Machine.start w maxCalls answers cancelAfter)
      let r' := program.run (Machine.start w maxCalls (answers ++ later) cancelAfter)
      r.log <+: r'.log ∧ (r.ending ≠ .unwound .cancelled → r' = r)) ∧
    (let r := program.run (Machine.start { w with cancelIn } maxCalls answers cancelAfter)
      let r' := program.run (Machine.start { w with cancelIn := none } maxCalls answers none)
      r.log <+: r'.log ∧ (r.ending = .unwound .cancelled ∨ r' = r)) := by
  -- more answers cover fewer of them, and no signal covers any signal
  constructor
  · intro r r'
    have hcovers : Grant.Covers (· = .cancelled) ⟨w, maxCalls, answers, cancelAfter⟩
        ⟨w, maxCalls, answers ++ later, cancelAfter⟩ := .append _ later
    obtain ⟨hlog, hsame | ⟨u, hend, rfl⟩⟩ := program.run_truncates hcovers hrunning hrunning
    · exact ⟨hlog, fun _ => hsame⟩
    · exact ⟨hlog, fun hne => absurd hend hne⟩
  · intro r r'
    have hcovers : Grant.Covers (· = .cancelled) ⟨{ w with cancelIn }, maxCalls, answers, cancelAfter⟩
        ⟨{ w with cancelIn := none }, maxCalls, answers, none⟩ :=
      ⟨.inr ⟨rfl, .cancelIn w cancelIn⟩, .inl rfl, ⟨[], (List.append_nil _).symm, .inl rfl⟩,
        .inr ⟨rfl, rfl⟩⟩
    obtain ⟨hlog, hsame | ⟨u, hend, rfl⟩⟩ := program.run_truncates hcovers hrunning hrunning
    · exact ⟨hlog, .inr hsame⟩
    · exact ⟨hlog, .inl hend⟩

/-- A script that asks for a name and prints it, without an answer and with one. -/
theorem Program.cancellation_truncates_greeting :
    let ask : Expression := .call ⟨1, 7⟩ (.identifier ⟨1, 7⟩ (text "input")) []
    let program : Program :=
      [.function ⟨1, 1⟩ entryPoint ⟨1, 1⟩ [text "print", text "input"] true
        [.expression (.call ⟨1, 1⟩ (.identifier ⟨1, 1⟩ (text "print")) [ask])]]
    let r := program.run (Machine.start (.counting 9 0) 5 [] none)
    let r' := program.run (Machine.start (.counting 9 0) 5 [text "Ada"] none)
    (Watchdog.counting 9 0).running = true ∧ r.log = [.input []] ∧ r.log <+: r'.log := by
  intro ask program r r'
  exact ⟨rfl, by decide +kernel,
    (program.cancellation_truncates (w := .counting 9 0) rfl 5 [] [text "Ada"] none none).1.1⟩

/-- The script ended because its calls were nested too deep. -/
def Ending.ExceedsCalls (e : Ending) : Prop :=
  ∃ f, e = .unwound (.failed f) ∧
    f.cause.name.toText = text "RangeError" ∧ f.cause.message = text "Maximum call stack size exceeded"

/-- The bound on nested calls does not show until a run hits it. Up to there, a run with a higher
    bound has the same log; and if it is not hit, then the run ends in the same way, with the same
    error at the same place in the same calls if it fails. -/
theorem Program.maxCalls_transparent (program : Program) {w : Watchdog}
    (hrunning : w.running = true) {maxCalls maxCalls' : Nat} (hle : maxCalls ≤ maxCalls')
    (answers : List Text) (cancelAfter : Option Nat) :
    let r := program.run (Machine.start w maxCalls answers cancelAfter)
    let r' := program.run (Machine.start w maxCalls' answers cancelAfter)
    (¬r.ending.ExceedsCalls → r' = r) ∧ (r.ending.ExceedsCalls → r.log <+: r'.log) := by
  intro r r'
  have hcovers : Grant.Covers (fun u => (Ending.unwound u).ExceedsCalls)
      ⟨w, maxCalls, answers, cancelAfter⟩ ⟨w, maxCalls', answers, cancelAfter⟩ :=
    ⟨.inl rfl, .inr ⟨hle, fun place calls => ⟨_, rfl, rfl, rfl⟩⟩,
      ⟨[], (List.append_nil _).symm, .inl rfl⟩, .inl rfl⟩
  obtain ⟨hlog, hsame | ⟨u, hend, hcut⟩⟩ := program.run_truncates hcovers hrunning hrunning
  · exact ⟨fun _ => hsame, fun _ => hlog⟩
  · exact ⟨fun hnot => absurd (hend ▸ hcut) hnot, fun _ => hlog⟩

/-- A function that prints and calls itself twice, with too few calls and with enough. -/
theorem Program.maxCalls_transparent_nested :
    let name (t : Text) : Expression := .identifier ⟨1, 1⟩ t
    let call (a b : Expression) : Expression := .call ⟨1, 1⟩ (name (text "f")) [a, b]
    let program : Program :=
      [.function ⟨1, 1⟩ entryPoint ⟨1, 1⟩ [text "print"] true
        [.function ⟨1, 1⟩ (text "f") ⟨1, 1⟩ [text "a", text "b"] false
          [.expression (.call ⟨1, 1⟩ (name (text "print")) [name (text "a")]),
            .branch (name (text "a")) (.expression (call (name (text "b")) (.bool ⟨1, 1⟩ false))) none],
          .expression (call (.bool ⟨1, 1⟩ true) (.bool ⟨1, 1⟩ true))]]
    let r := program.run (Machine.start (.counting 99 0) 2 [] none)
    let r' := program.run (Machine.start (.counting 99 0) 4 [] none)
    (Watchdog.counting 99 0).running = true ∧ 2 ≤ 4 ∧
      r.log = [.print (text "true"), .print (text "true")] ∧
      (¬r.ending.ExceedsCalls → r' = r) ∧ (r.ending.ExceedsCalls → r.log <+: r'.log) := by
  intro name call program r r'
  refine ⟨rfl, by decide, by decide +kernel, ?_⟩
  exact program.maxCalls_transparent (w := .counting 99 0) rfl (by decide) [] none

end Script

end Pseudocode
