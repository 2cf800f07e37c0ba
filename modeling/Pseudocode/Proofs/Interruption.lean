import Pseudocode.Proofs.EvaluationFuel

/-!
# Interruption of runs

The watchdog can stop a run only at a check. Every run gets to the check at which the watchdog would
stop it, or ends before; in either case it ends.

* `Watchdog.Passes`, `Watchdog.StopsAt`   what a watchdog does at the next checks
* `Program.Reaches`                       a run gets to a check
* `Program.RunsUnlimited`                 what a run does that nothing stops
* `Program.run_obeys_watchdog`            a run does this, or it is stopped

Two runs of a program under different watchdogs go in step until one of the watchdogs has something
to say. That is a relation between two machines, and evaluation respects it.
-/

namespace Pseudocode

/-! ## Watchdogs -/

namespace Watchdog

/-- `n` checks pass and then `P` holds, whatever requests are answered before any of them. -/
def After (P : Watchdog → Prop) : Nat → Watchdog → Prop
  | 0, w => P w ∧ P w.pause.resume
  | n + 1, w => (w.stop? = none ∧ After P n w.tick) ∧
      (w.pause.resume.stop? = none ∧ After P n w.pause.resume.tick)

/-- The next `n` checks pass. -/
def Passes (n : Nat) (w : Watchdog) : Prop := After (fun _ => True) n w

/-- A run is stopped at its check number `k`, and not before. -/
def StopsAt (why : Stop) : Nat → Watchdog → Prop
  | 0, _ => False
  | k + 1, w => After (fun w => w.stop? = some why) k w

/-- A watchdog to which time is nothing but checks. -/
def counting (budget spent : Nat) : Watchdog := ⟨budget, .cumulative, true, spent, [], none⟩

theorem pause_resume_pause_resume (w : Watchdog) : w.pause.resume.pause.resume = w.pause.resume := by
  by_cases hpolicy : w.policy = .resetAfterInput <;> simp [pause, resume, hpolicy]

theorem running_pause_resume (w : Watchdog) : w.pause.resume.running = true := by
  simp [pause, resume]

/-- An answered request changes nothing about what comes after the next checks. -/
theorem After.pause_resume {P : Watchdog → Prop} {n : Nat} {w : Watchdog} (h : After P n w) :
    After P n w.pause.resume := by
  cases n with
  | zero => exact ⟨h.2, by rw [pause_resume_pause_resume]; exact h.2⟩
  | succ n => exact ⟨h.2, by rw [pause_resume_pause_resume]; exact h.2⟩

theorem stop?_counting (budget spent : Nat) :
    (counting budget spent).stop? = if budget ≤ spent then some .timedOut else none := by
  by_cases hspent : budget ≤ spent <;> simp [stop?, counting, delay, hspent]

theorem tick_counting (budget spent : Nat) :
    (counting budget spent).tick = counting budget (spent + 1) := rfl

theorem pause_resume_counting (budget spent : Nat) :
    (counting budget spent).pause.resume = counting budget spent := rfl

/-- With time for `n` checks a run is stopped at the check after them. -/
theorem stopsAt_counting (n spent : Nat) :
    (counting (spent + n) spent).StopsAt .timedOut (n + 1) := by
  induction n generalizing spent with
  | zero => exact ⟨by simp [stop?_counting], by simp [pause_resume_counting, stop?_counting]⟩
  | succ n ih =>
    have htick := ih (spent + 1)
    rw [Nat.succ_add_eq_add_succ, ← tick_counting] at htick
    have hpasses : (counting (spent + (n + 1)) spent).stop? = none := by simp [stop?_counting]
    exact ⟨⟨hpasses, htick⟩, hpasses, htick⟩

end Watchdog

namespace Script

open Eval

/-- A stop of the run is how it ended. -/
def Ending.IsStop : Ending → Stop → Prop
  | .done, _ => False
  | .unwound u, why => u.IsStop why

/-! ## Runs in step -/

/-- What two watchdogs have to do with each other, given the answers that are left, in order for two
    runs to go in step. At a check that is not passed by both, the first run is stopped, and `Off`
    says what it is stopped for and what the other watchdog says. -/
structure InStep (R : Nat → Watchdog → Watchdog → Prop) (Off : Stop → Option Stop → Prop) : Prop where
  resume {answers : Nat} {v w : Watchdog} :
    R (answers + 1) v w → R answers v.pause.resume w.pause.resume
  check {answers : Nat} {v w : Watchdog} : R answers v w →
    (v.stop? = none ∧ w.stop? = none ∧ R answers v.tick w.tick) ∨
      ∃ why, v.stop? = some why ∧ Off why w.stop?

section

variable {R : Nat → Watchdog → Watchdog → Prop} {Off : Stop → Option Stop → Prop}

/-- Machines that differ in their watchdogs only. -/
def Machine.Beside (R : Nat → Watchdog → Watchdog → Prop) (m m' : Machine) : Prop :=
  ∃ w, m' = { m with watchdog := w } ∧ m.cancelAfter = none ∧ R m.answers.length m.watchdog w

/-- Two runs have done the same, or the first one was stopped. -/
inductive Parallel (R : Nat → Watchdog → Watchdog → Prop) (Off : Stop → Option Stop → Prop) {α : Type} :
    EStateM.Result Unwind Machine α → EStateM.Result Unwind Machine α → Prop where
  | ok {a : α} {m m' : Machine} : m.Beside R m' → Parallel R Off (.ok a m) (.ok a m')
  | error {u : Unwind} {m m' : Machine} :
    (∀ place, u ≠ .timedOut place) → m.log = m'.log → Parallel R Off (.error u m) (.error u m')
  | stopped {u : Unwind} {m : Machine} {why : Stop} {said : Option Stop}
      {y : EStateM.Result Unwind Machine α} :
    u.IsStop why → Off why said →
      (∀ other, said = some other → ∃ v m', y = .error v m' ∧ v.IsStop other) →
        Parallel R Off (.error u m) y

/-- What happens in step. -/
def GoesInStep (R : Nat → Watchdog → Watchdog → Prop) (Off : Stop → Option Stop → Prop) : EvalRelation :=
  fun _ x y => ∀ m m', m.Beside R m' → Parallel R Off (x m) (y m')

private theorem goesInStep_bind {α β : Type} {x y : Eval α} {f g : α → Eval β}
    (hxy : GoesInStep R Off α x y) (hfg : ∀ a, GoesInStep R Off β (f a) (g a)) :
    GoesInStep R Off β (x >>= f) (y >>= g) := by
  intro m m' hm
  have hparallel := hxy m m' hm
  simp only [bind, EStateM.bind]
  generalize x m = left at hparallel
  generalize y m' = right at hparallel
  cases hparallel with
  | ok hbeside => exact hfg _ _ _ hbeside
  | error hu hlog => exact .error hu hlog
  | stopped hu hoff hother =>
    refine .stopped hu hoff fun other hsaid => ?_
    obtain ⟨v, m', rfl, hv⟩ := hother other hsaid
    exact ⟨v, m', rfl, hv⟩

private theorem goesInStep_check (h : InStep R Off) {α : Type} {f g : Unit → Eval α}
    (place : Position) (hfg : ∀ u, GoesInStep R Off α (f u) (g u)) :
    GoesInStep R Off α (tick place >>= f) (tick place >>= g) := by
  rintro m _ ⟨w, rfl, hcancel, hR⟩
  simp only [bind, EStateM.bind]
  rcases h.check hR with ⟨hv, hw, hticked⟩ | ⟨why, hv, hoff⟩
  · rw [tick_of_passes hv, tick_of_passes hw]
    exact hfg () _ _ ⟨_, rfl, hcancel, hticked⟩
  · obtain ⟨u, hu, hstop⟩ := tick_of_stops place hv
    rw [hu]
    refine .stopped hstop hoff fun other hsaid => ?_
    obtain ⟨u, hu, hother⟩ := tick_of_stops (m := { m with watchdog := w }) place hsaid
    exact ⟨u, _, by rw [hu], hother⟩

private theorem goesInStep_isClosed (h : InStep R Off) :
    (GoesInStep R Off).IsClosed (GoesInStep R Off) := by
  refine EvalRelation.isClosed_of_local id ?_ goesInStep_bind goesInStep_bind (goesInStep_check h)
    ?_ ?_ ?_
  case refine_1 =>
    rintro α x hx m _ ⟨w, rfl, hcancel, hR⟩
    have hlocal := hx m w
    cases heq : x m with
    | ok a n =>
      rw [heq] at hlocal
      obtain ⟨hsame, hx⟩ := hlocal
      rw [hx]
      refine .ok ⟨w, rfl, hsame.cancelAfter.trans hcancel, ?_⟩
      rwa [hsame.answers, hsame.watchdog]
    | error u n =>
      rw [heq] at hlocal
      obtain ⟨hsame, hu, hx⟩ := hlocal
      rw [hx]
      exact .error hu rfl
  -- the call is put on both stacks and taken off again
  case refine_2 =>
    rintro α x y call hxy m _ ⟨w, rfl, hcancel, hR⟩
    have hparallel := hxy { m with calls := call :: m.calls } _ ⟨w, rfl, hcancel, hR⟩
    simp only [Eval.within]
    generalize x { m with calls := call :: m.calls } = left at hparallel
    generalize y { m with watchdog := w, calls := call :: m.calls } = right at hparallel
    cases hparallel with
    | ok hbeside =>
      obtain ⟨w, rfl, hcancel, hR⟩ := hbeside
      exact .ok ⟨w, rfl, hcancel, hR⟩
    | error hu hlog => exact .error hu hlog
    | stopped hu hoff hother =>
      refine .stopped hu hoff fun other hsaid => ?_
      obtain ⟨v, m', rfl, hv⟩ := hother other hsaid
      exact ⟨v, _, rfl, hv⟩
  case refine_3 =>
    rintro shown m _ ⟨w, rfl, hcancel, hR⟩
    simp only [print, hcancel]
    exact .ok ⟨w, rfl, rfl, hR⟩
  -- an answer pauses and resumes both watchdogs
  case refine_4 =>
    rintro prompt m _ ⟨w, rfl, hcancel, hR⟩
    simp only [input]
    cases hanswers : m.answers with
    | nil => exact .error (by simp) rfl
    | cons answer answers =>
      rw [hanswers] at hR
      exact .ok ⟨_, rfl, hcancel, h.resume hR⟩

/-- The result of a run, from how evaluation ended. -/
def Result.ofEnd : EStateM.Result Unwind Machine Unit → Result
  | .ok _ m => ⟨m.log.reverse, .done⟩
  | .error why m => ⟨m.log.reverse, .unwound why⟩

theorem run_eq_ofEnd (program : Program) (m : Machine) :
    program.run m = .ofEnd (runProgram (m.fuel program) program m) := by
  simp only [Program.run]
  cases runProgram (m.fuel program) program m <;> rfl

/-- The result of a watched run does not depend on the fuel, which does not run out. -/
theorem run_eq_ofEnd_add (program : Program) {watchdog : Watchdog}
    (hrunning : watchdog.running = true) (maxCalls : Nat) (answers : List Text)
    (cancelAfter : Option Nat) (extra : Nat) :
    let m := Machine.start watchdog maxCalls answers cancelAfter
    program.run m = .ofEnd (runProgram (m.fuel program + extra) program m) := by
  intro m
  rw [run_eq_ofEnd]
  rcases runProgram_add program (m.fuel program) extra m with ⟨m', hout⟩ | hsame
  · exact absurd hout
      (runProgram_ne_outOfFuel program watchdog hrunning maxCalls answers cancelAfter 0 m')
  · rw [hsame]

theorem ending_ne_outOfFuel (program : Program) {watchdog : Watchdog}
    (hrunning : watchdog.running = true) (maxCalls : Nat) (answers : List Text)
    (cancelAfter : Option Nat) :
    (program.run (Machine.start watchdog maxCalls answers cancelAfter)).ending ≠
      .unwound .outOfFuel := by
  intro hout
  rw [run_eq_ofEnd] at hout
  cases hend : runProgram ((Machine.start watchdog maxCalls answers cancelAfter).fuel program) program
      (Machine.start watchdog maxCalls answers cancelAfter) with
  | ok u m' =>
    rw [hend] at hout
    cases hout
  | error u m' =>
    rw [hend] at hout
    obtain rfl : u = .outOfFuel := by simpa [Result.ofEnd] using hout
    exact runProgram_ne_outOfFuel program watchdog hrunning maxCalls answers cancelAfter 0 m' hend

/-- Two runs whose watchdogs are related end in the same way, or the first one is stopped. -/
theorem run_inStep (h : InStep R Off) (program : Program) (maxCalls : Nat) (answers : List Text)
    {v w : Watchdog} (hv : v.running = true) (hw : w.running = true) (hR : R answers.length v w) :
    let left := program.run (Machine.start v maxCalls answers none)
    let right := program.run (Machine.start w maxCalls answers none)
    (right = left ∧ ¬left.ending.IsStop .timedOut) ∨
      ∃ why said, left.ending.IsStop why ∧ Off why said ∧
        ∀ other, said = some other → right.ending.IsStop other := by
  intro left right
  let m := Machine.start v maxCalls answers none
  let m' := Machine.start w maxCalls answers none
  -- both runs get the fuel of both, so that they can be compared
  have hrespects : Respects (GoesInStep R Off) (m.fuel program + m'.fuel program)
      (m.fuel program + m'.fuel program) := by
    refine respects (goesInStep_isClosed h) (fun α => ?_) _
    rintro n _ ⟨w, rfl, hcancel, hR⟩
    exact .error (by simp) rfl
  have hparallel := hrespects.runProgram (goesInStep_isClosed h) program m m' ⟨w, rfl, rfl, hR⟩
  have hleft : left = .ofEnd (runProgram (m.fuel program + m'.fuel program) program m) :=
    run_eq_ofEnd_add program hv maxCalls answers none _
  have hright : right = .ofEnd (runProgram (m.fuel program + m'.fuel program) program m') := by
    rw [Nat.add_comm]
    exact run_eq_ofEnd_add program hw maxCalls answers none _
  rw [hleft, hright]
  generalize runProgram (m.fuel program + m'.fuel program) program m = x at hparallel
  generalize runProgram (m.fuel program + m'.fuel program) program m' = y at hparallel
  cases hparallel with
  | ok hbeside =>
    obtain ⟨w, rfl, -⟩ := hbeside
    exact .inl ⟨rfl, id⟩
  | @error u n n' hu hlog =>
    refine .inl ⟨by rw [Result.ofEnd, Result.ofEnd, hlog], fun hstop => ?_⟩
    cases u <;> first | exact hstop | exact hu _ rfl
  | stopped hu hoff hother =>
    refine .inr ⟨_, _, hu, hoff, fun other hsaid => ?_⟩
    obtain ⟨v, m', rfl, hv⟩ := hother other hsaid
    exact hv

end

/-! ## Stopped and unlimited runs -/

/-- A run gets to its check number `k`: a watchdog that lets only the checks before it pass has to
    stop the run. -/
def Program.Reaches (program : Program) (maxCalls : Nat) (answers : List Text) (k : Nat) : Prop :=
  (program.run (Machine.start (.counting (k - 1) 0) maxCalls answers none)).ending.IsStop .timedOut

/-- What a run does that nothing stops: it does the same under every watchdog that lets enough checks
    pass. -/
def Program.RunsUnlimited (program : Program) (maxCalls : Nat) (answers : List Text) (r : Result) :
    Prop :=
  ∃ n, ∀ w : Watchdog, w.running = true → w.Passes n →
    program.run (Machine.start w maxCalls answers none) = r

/-- A watchdog that counts checks, beside one that stops a run after as many. -/
private theorem inStep_counting (why : Stop) :
    InStep (fun _ v w => ∃ n spent, v = .counting (spent + n) spent ∧
        Watchdog.After (fun w => w.stop? = some why) n w)
      (fun left right => left = .timedOut ∧ right = some why) where
  resume := by
    rintro answers v w ⟨n, spent, rfl, hw⟩
    exact ⟨n, spent, rfl, hw.pause_resume⟩
  check := by
    rintro answers v w ⟨n, spent, rfl, hw⟩
    cases n with
    | zero => exact .inr ⟨.timedOut, by simp [Watchdog.stop?_counting], rfl, hw.1⟩
    | succ n =>
      refine .inl ⟨by simp [Watchdog.stop?_counting], hw.1.1, n, spent + 1, ?_, hw.1.2⟩
      rw [Watchdog.tick_counting, Nat.succ_add_eq_add_succ]

/-- Any watchdog, beside one that lets more checks pass. -/
private theorem inStep_passes (neverCancels : Prop) :
    InStep (fun answers v w => v.running = true ∧ (neverCancels → v.cancelIn = none) ∧
        ∃ n, w.Passes n ∧ v.budget - v.spent + answers * v.budget ≤ n)
      (fun why _ => neverCancels → why = .timedOut) where
  resume := by
    rintro answers v w ⟨hv, hcancel, n, hw, hn⟩
    refine ⟨v.running_pause_resume, ?_, n, hw.pause_resume, ?_⟩
    · simpa [Watchdog.pause, Watchdog.resume] using hcancel
    · rw [Nat.succ_mul] at hn
      simp only [Watchdog.pause, Watchdog.resume, Bool.false_eq_true, if_false]
      omega
  check := by
    rintro answers v w ⟨hv, hcancel, n, hw, hn⟩
    cases hstop : v.stop? with
    | some why =>
      refine .inr ⟨why, rfl, fun hnever => ?_⟩
      simp only [Watchdog.stop?, hcancel hnever, reduceCtorEq, if_false] at hstop
      split at hstop
      · exact (Option.some.inj hstop).symm
      · cases hstop
    | none =>
      -- each check that the watchdog allows uses up one of those that are left to it
      have hspent := v.spent_add_delay_lt hv hstop
      obtain ⟨n, rfl⟩ : ∃ k, n = k + 1 := ⟨n - 1, by omega⟩
      refine .inl ⟨rfl, hw.1.1, hv, fun hnever => ?_, n, hw.1.2, ?_⟩
      · simp [Watchdog.tick, hcancel hnever]
      · simp only [Watchdog.tick, hv, if_true]
        omega

/-- A run that is not stopped does what an unlimited one does. -/
private theorem stopped_or_unlimited (program : Program) (maxCalls : Nat) (answers : List Text)
    {v : Watchdog} (hv : v.running = true) :
    let r := program.run (Machine.start v maxCalls answers none)
    (∃ why, r.ending.IsStop why ∧ (v.cancelIn = none → why = .timedOut)) ∨
      program.RunsUnlimited maxCalls answers r := by
  intro r
  let n := v.budget - v.spent + answers.length * v.budget
  -- a watchdog that is patient enough changes the run only if a limit was felt
  by_cases hall : ∀ w : Watchdog, w.running = true → w.Passes n →
      program.run (Machine.start w maxCalls answers none) = r
  · exact .inr ⟨n, hall⟩
  · left
    simp only [Classical.not_forall] at hall
    obtain ⟨w, hw, hpasses, hne⟩ := hall
    rcases run_inStep (inStep_passes (v.cancelIn = none)) program maxCalls answers hv hw
      ⟨hv, id, n, hpasses, Nat.le_refl n⟩ with ⟨heq, -⟩ | ⟨why, said, hstop, hwhy, -⟩
    · exact absurd heq hne
    · exact ⟨why, hstop, hwhy⟩

/-- A run of which nothing is known but that it has to stop at once does not talk to the host. -/
private theorem silent_isClosed :
    EvalRelation.IsClosed
      (fun _ x _ => ∀ m, m.watchdog.stop? ≠ none → match x m with
        | .ok _ m' | .error _ m' => m'.log = m.log ∧ m'.watchdog = m.watchdog)
      (fun _ _ _ => True) := by
  refine EvalRelation.isClosed_of_local (fun _ => trivial) ?_ ?_ (fun _ _ => trivial) ?_ ?_
    (fun _ => trivial) (fun _ => trivial)
  case refine_1 =>
    intro α x hx m _
    have hlocal := hx m m.watchdog
    cases heq : x m <;> rw [heq] at hlocal <;> exact ⟨hlocal.1.log, hlocal.1.watchdog⟩
  case refine_2 =>
    intro α β x y f g hxy hfg m hm
    have hx := hxy m hm
    simp only [bind, EStateM.bind]
    cases heq : x m with
    | error u m' => simpa only [heq] using hx
    | ok a m' =>
      simp only [heq] at hx ⊢
      have hf := hfg a m' (by rw [hx.2]; exact hm)
      cases hlast : f a m' <;> rw [hlast] at hf <;> exact ⟨hf.1.trans hx.1, hf.2.trans hx.2⟩
  -- the check stops the run here, so the rest is never run
  case refine_3 =>
    intro α f g place _ m hm
    obtain ⟨why, hwhy⟩ := Option.ne_none_iff_exists'.mp hm
    obtain ⟨u, hu, -⟩ := tick_of_stops place hwhy
    simp only [bind, EStateM.bind]
    rw [hu]
    exact ⟨rfl, rfl⟩
  case refine_4 =>
    intro α x y call hxy m hm
    have hx := hxy { m with calls := call :: m.calls } hm
    simp only [Eval.within]
    cases heq : x { m with calls := call :: m.calls } <;> rw [heq] at hx <;> exact hx

/-- No run escapes the watchdog. It ends, however much fuel it is given. Either it is stopped, or it
    does what an unlimited run does: it is stopped at the check at which the watchdog stops runs, if
    it gets there. A run that is stopped at its first check does not talk to the host. -/
theorem Program.run_obeys_watchdog (program : Program) (maxCalls : Nat) (answers : List Text)
    (w : Watchdog) (hrunning : w.running = true) :
    let m := Machine.start w maxCalls answers none
    let r := program.run m
    (∀ extra, Result.ofEnd (runProgram (m.fuel program + extra) program m) = r) ∧
    r.ending ≠ .unwound .outOfFuel ∧
    ((∃ why, r.ending.IsStop why) ∨ program.RunsUnlimited maxCalls answers r) ∧
    ∀ k why, w.StopsAt why k →
      (program.Reaches maxCalls answers k → r.ending.IsStop why) ∧
      (¬program.Reaches maxCalls answers k → program.RunsUnlimited maxCalls answers r) ∧
      (k = 1 → r.log = []) := by
  intro m r
  refine ⟨fun extra => (run_eq_ofEnd_add program hrunning maxCalls answers none extra).symm,
    ending_ne_outOfFuel program hrunning maxCalls answers none, ?_, fun k why hstops => ?_⟩
  · rcases stopped_or_unlimited program maxCalls answers hrunning with ⟨why, hwhy, -⟩ | hunlimited
    · exact .inl ⟨why, hwhy⟩
    · exact .inr hunlimited
  obtain ⟨k, rfl⟩ : ∃ j, k = j + 1 := by
    cases k with
    | zero => exact hstops.elim
    | succ k => exact ⟨k, rfl⟩
  have hstep := run_inStep (inStep_counting why) program maxCalls answers (v := .counting k 0) rfl
    hrunning ⟨k, 0, by rw [Nat.zero_add], hstops⟩
  refine ⟨fun hreaches => ?_, fun hnot => ?_, fun hfirst => ?_⟩
  · rcases hstep with ⟨-, hne⟩ | ⟨_, said, -, ⟨-, hsaid⟩, hother⟩
    · exact absurd hreaches hne
    · exact hother why hsaid
  · rcases hstep with ⟨heq, -⟩ | ⟨_, said, hstop, ⟨rfl, -⟩, -⟩
    · rw [show r = _ from heq]
      rcases stopped_or_unlimited program maxCalls answers (v := .counting k 0) rfl with
        ⟨_, hstop, htime⟩ | hunlimited
      · rw [htime rfl] at hstop
        exact absurd hstop hnot
      · exact hunlimited
    · exact absurd hstop hnot
  · obtain rfl : k = 0 := by omega
    have hstop : m.watchdog.stop? ≠ none := by
      rw [show m.watchdog.stop? = some why from hstops.1]
      simp
    have hsilent := ((respects silent_isClosed (fun α m _ => ⟨rfl, rfl⟩) (m.fuel program)).runProgram
      silent_isClosed program) m hstop
    rw [show r = _ from run_eq_ofEnd program m]
    cases heq : runProgram (m.fuel program) program m <;> rw [heq] at hsilent <;>
      rw [Result.ofEnd, hsilent.1] <;> rfl

/-- A program that would print, stopped at its first check. -/
theorem Program.run_obeys_watchdog_at_once :
    let program : Program :=
      [.expression (.call ⟨1, 1⟩ (.identifier ⟨1, 1⟩ (text "print")) [.number ⟨1, 7⟩ 1])]
    (Watchdog.counting 0 0).running = true ∧
      (program.run (Machine.start (.counting 0 0) 10 [] none)).log = [] :=
  ⟨rfl, ((run_obeys_watchdog _ 10 [] _ rfl).2.2.2 1 .timedOut ⟨rfl, rfl⟩).2.2 rfl⟩

end Script

end Pseudocode
