import Pseudocode.Proofs.EvaluationPlan
import Pseudocode.Proofs.Truncation

/-!
# The states of a run

A run visits a state before every operation that it performs and before every task that it begins.
These are the states that a run is in on its way, in the calls that it has entered by then; together
with the state at its end they are all that there are.

* `Plan.Visits`               what a plan is about to do, in which calls and in which state
* `Plan.relates`              what every operation does to the state, a plan does
* `Plan.invariant`            what every operation keeps holds in every state
* `Plan.exists_visits_step`   a run is unwound by an operation, unless it is out of fuel
-/

namespace Pseudocode.Script

/-! ## Entering and leaving calls -/

namespace Machine

/-- The state in a call, if one is entered. -/
def enter (m : Machine) (entered : Option Call) : Machine :=
  { m with calls := entered.toList ++ m.calls }

/-- The state when that call is left again. -/
def leave (m : Machine) (entered : Option Call) : Machine :=
  { m with calls := m.calls.drop entered.toList.length }

variable (m : Machine) (entered : Option Call)

@[simp] theorem enter_calls : (m.enter entered).calls = entered.toList ++ m.calls := rfl

@[simp] theorem leave_calls : (m.leave entered).calls = m.calls.drop entered.toList.length := rfl

end Machine

section

variable {α : Type} (entered : Option Call) (x : Eval α) (m : Machine)

/-- What is done inside a call is done in a state of its own, and the call is left however that
    ends. -/
theorem Eval.inside_eq : Eval.inside entered x m =
    match x (m.enter entered) with
    | .ok a m' => .ok a (m'.leave entered)
    | .error u m' => .error u (m'.leave entered) := by
  cases entered with
  | none =>
    change x m = match x m with | .ok a m' => _ | .error u m' => _
    cases x m <;> rfl
  | some call =>
    simp only [Eval.inside, Eval.within, Machine.leave, Option.toList_some, List.length_singleton,
      List.drop_one]
    rfl

theorem machineOf_inside :
    machineOf (Eval.inside entered x m) = (machineOf (x (m.enter entered))).leave entered := by
  rw [Eval.inside_eq]
  cases x (m.enter entered) <;> rfl

end

/-! ## What is visited -/

/-- What a run is about to do: an operation, or a task with some fuel. -/
inductive Moment : Type 1 where
  | step {α : Type} (o : Operation α)
  | task (fuel : Nat) {α : Type} (t : Task α)

/-- The state at the end of what is done. -/
def Moment.after : Moment → Machine → Machine
  | .step o, m => machineOf (o.perform m)
  | .task n t, m => machineOf (t.perform n m)

/-- A plan that is followed from a state `m` is about to do `x` in a state `m'`, inside of some calls
    that it has entered, innermost first. -/
inductive Plan.Visits : {α : Type} → (fuel : Nat) → Plan α → (m : Machine) → List Call →
    (x : Moment) → (m' : Machine) → Prop where
  | step {α β : Type} {n : Nat} {o : Operation β} {next : β → Plan α} {m : Machine} :
    Visits n (.step o next) m [] (.step o) m
  | afterStep {α β : Type} {n : Nat} {o : Operation β} {next : β → Plan α} {m m' m'' : Machine}
    {b : β} {calls : List Call} {x : Moment} :
    o.perform m = .ok b m' → Visits n (next b) m' calls x m'' →
      Visits n (.step o next) m calls x m''
  | task {α β : Type} {n : Nat} {entered : Option Call} {t : Task β} {next : β → Plan α}
    {m : Machine} :
    Visits n (.task entered t next) m entered.toList (.task n t) (m.enter entered)
  | insideTask {α β : Type} {n : Nat} {entered : Option Call} {t : Task β} {next : β → Plan α}
    {m m' : Machine} {calls : List Call} {x : Moment} :
    Visits n t.plan (m.enter entered) calls x m' →
      Visits (n + 1) (.task entered t next) m (calls ++ entered.toList) x m'
  | afterTask {α β : Type} {n : Nat} {entered : Option Call} {t : Task β} {next : β → Plan α}
    {m m' m'' : Machine} {b : β} {calls : List Call} {x : Moment} :
    Eval.inside entered (t.perform n) m = .ok b m' → Visits n (next b) m' calls x m'' →
      Visits n (.task entered t next) m calls x m''

/-- What is visited while a task is done. -/
def Task.Visits {α : Type} (fuel : Nat) (t : Task α) : Machine → List Call → Moment → Machine → Prop :=
  (liftM t : Plan α).Visits fuel

/-- A plan visits what a task in it visits. -/
theorem Plan.Visits.inTask {α β : Type} {n : Nat} {entered : Option Call} {t : Task β}
    {next : β → Plan α} {m m' : Machine} {calls : List Call} {x : Moment}
    (h : t.Visits n (m.enter entered) calls x m') :
    (Plan.task entered t next).Visits n m (calls ++ entered.toList) x m' := by
  cases h with
  | task => exact .task
  | insideTask hinside =>
    rw [Option.toList_none, List.append_nil]
    exact .insideTask hinside
  | afterTask _ hafter => cases hafter

theorem Plan.Visits.nested {α β : Type} {n : Nat} {t : Task β} {next : β → Plan α} {m m' : Machine}
    {calls : List Call} {x : Moment} (h : t.Visits n m calls x m') :
    (Plan.task none t next).Visits n m calls x m' := by
  rw [← List.append_nil calls]
  exact .inTask h

/-- A task that has fuel visits what its plan does. -/
theorem Task.Visits.of_plan {α : Type} {n : Nat} {t : Task α} {m m' : Machine} {calls : List Call}
    {x : Moment} (h : t.plan.Visits n m calls x m') : t.Visits (n + 1) m calls x m' := by
  rw [← List.append_nil calls]
  exact .insideTask h

/-- What is visited on the way of a task is visited on the way of the plan that begins the task. -/
theorem Plan.Visits.trans {α β : Type} {n k : Nat} {p : Plan α} {t : Task β} {m m' m'' : Machine}
    {outer inner : List Call} {x : Moment} (h : p.Visits n m outer (.task k t) m')
    (hinner : t.Visits k m' inner x m'') : p.Visits n m (inner ++ outer) x m'' := by
  generalize hmoment : Moment.task k t = moment at h
  induction h with
  | step => cases hmoment
  | afterStep hrun _ ih => exact .afterStep hrun (ih hinner hmoment)
  | task =>
    cases hmoment
    exact .inTask hinner
  | insideTask _ ih =>
    rw [← List.append_assoc]
    exact .insideTask (ih hinner hmoment)
  | afterTask hrun _ ih => exact .afterTask hrun (ih hinner hmoment)

/-! ## What a plan does to the state -/

theorem Eval.pure_eq {α : Type} (a : α) (m : Machine) : (pure a : Eval α) m = .ok a m := rfl

theorem Eval.bind_eq {α β : Type} (x : Eval α) (f : α → Eval β) (m : Machine) :
    (x >>= f) m = match x m with
      | .ok a m' => f a m'
      | .error u m' => .error u m' := by
  change EStateM.bind x f m = _
  unfold EStateM.bind
  cases x m <;> rfl

section

variable {R : Machine → Machine → Prop} {α β : Type} {n : Nat} {m m' : Machine}

/-- Every operation that a plan performs from `m` on does `R` to the state. -/
def Plan.Does (R : Machine → Machine → Prop) (n : Nat) (p : Plan α) (m : Machine) : Prop :=
  ∀ (β : Type) (o : Operation β) calls m', p.Visits n m calls (.step o) m' →
    R m' (machineOf (o.perform m'))

namespace Plan.Does

theorem afterStep {o : Operation β} {next : β → Plan α} {b : β}
    (h : Does R n (.step o next) m) (hrun : o.perform m = .ok b m') :
    R m m' ∧ Does R n (next b) m' := by
  refine ⟨?_, fun β o' calls m'' hvisits => h β o' calls m'' (.afterStep hrun hvisits)⟩
  simpa only [hrun, machineOf] using h _ o [] m .step

variable {entered : Option Call} {t : Task β} {next : β → Plan α}

theorem inTask (h : Does R n (.task entered t next) m) : Does R n (liftM t) (m.enter entered) :=
  fun β o _ m' hvisits => h β o _ m' (.inTask hvisits)

theorem afterTask {b : β} (h : Does R n (.task entered t next) m)
    (hrun : Eval.inside entered (t.perform n) m = .ok b m') : Does R n (next b) m' :=
  fun β o calls m'' hvisits => h β o calls m'' (.afterTask hrun hvisits)

end Plan.Does

/-- The relation `R` holds between the beginning and the end of something that leaves the state as it
    is, that goes on, or that is done in a call. -/
structure Machine.IsPath (R : Machine → Machine → Prop) : Prop where
  refl (m : Machine) : R m m
  trans {m m' m'' : Machine} : R m m' → R m' m'' → R m m''
  inside {m m' : Machine} (entered : Option Call) : R (m.enter entered) m' → R m (m'.leave entered)

section

variable (hR : Machine.IsPath R)
include hR

/-- What becomes of a plan, once it is known what becomes of its tasks. -/
private theorem Plan.relates_of_tasks
    (htasks : ∀ (β : Type) (t : Task β) m, Plan.Does R n (liftM t) m → R m (machineOf (t.perform n m)))
    (p : Plan α) (m : Machine) (h : p.Does R n m) : R m (machineOf (p.perform n m)) := by
  -- an operation relates by itself, a task by assumption
  induction p generalizing m with
  | done a => exact hR.refl m
  | step o next ih =>
    have hfirst := h _ o [] m .step
    rw [Plan.perform, Eval.bind_eq]
    cases hrun : o.perform m with
    | ok b m' => exact hR.trans (h.afterStep hrun).1 (ih b m' (h.afterStep hrun).2)
    | error u m' => simpa only [hrun, machineOf] using hfirst
  | task entered t next ih =>
    have hfirst : R m (machineOf (Eval.inside entered (t.perform n) m)) := by
      rw [machineOf_inside]
      exact hR.inside entered (htasks _ t _ h.inTask)
    rw [Plan.perform, Eval.bind_eq]
    cases hrun : Eval.inside entered (t.perform n) m with
    | ok b m' =>
      rw [hrun] at hfirst
      exact hR.trans hfirst (ih b m' (h.afterTask hrun))
    | error u m' => simpa only [hrun, machineOf] using hfirst

/-- A task does to the state what every operation in it does. -/
theorem Task.relates (t : Task α) (m : Machine) (h : Plan.Does R n (liftM t) m) :
    R m (machineOf (t.perform n m)) := by
  -- a task has less fuel for its plan than it has itself
  induction n generalizing α m with
  | zero =>
    rw [Task.perform_zero]
    exact hR.refl m
  | succ n ih =>
    rw [Task.perform_succ]
    exact Plan.relates_of_tasks hR (fun β t m => ih t m) t.plan m
      fun β o calls m' hvisits => h β o calls m' (Task.Visits.of_plan hvisits)

/-- What every operation on its way does to the state, a plan does from its beginning to its end,
    however it ends. -/
theorem Plan.relates (p : Plan α) (m : Machine) (h : p.Does R n m) :
    R m (machineOf (p.perform n m)) :=
  Plan.relates_of_tasks hR (fun _ t m => Task.relates hR t m) p m h

/-- So does a task that is done in a call. -/
theorem Task.relates_inside {entered : Option Call} {t : Task β} {b : β}
    (h : Plan.Does R n (liftM t) (m.enter entered))
    (hrun : Eval.inside entered (t.perform n) m = .ok b m') : R m m' := by
  have hend := hR.inside entered (Task.relates hR t _ h)
  rwa [← machineOf_inside, hrun] at hend

/-- It has also done so in every state that is visited, if entering a call does. -/
theorem Plan.Visits.relates (henter : ∀ m entered, R m (m.enter entered)) {p : Plan α}
    {calls : List Call} {x : Moment} (hvisits : p.Visits n m calls x m') (h : p.Does R n m) :
    R m m' := by
  induction hvisits with
  | step => exact hR.refl _
  | afterStep hrun _ ih => exact hR.trans (h.afterStep hrun).1 (ih (h.afterStep hrun).2)
  | task => exact henter _ _
  | insideTask _ ih =>
    exact hR.trans (henter _ _) (ih fun β o calls m' hvisits => h β o _ m' (.insideTask hvisits))
  | afterTask hrun _ ih => exact hR.trans (Task.relates_inside hR h.inTask hrun) (ih (h.afterTask hrun))

end

/-- What every operation keeps holds in every state that is visited, after everything that is done
    there, and at the end. -/
theorem Plan.invariant {I : Machine → Prop} (hcalls : ∀ m calls, I m → I { m with calls })
    {p : Plan α} (h : p.Does (fun m m' => I m → I m') n m) (hm : I m) :
    (∀ calls x m', p.Visits n m calls x m' → I m' ∧ I (x.after m')) ∧
      I (machineOf (p.perform n m)) := by
  have hpath : Machine.IsPath fun m m' => I m → I m' :=
    ⟨fun _ => id, fun h h' hm => h' (h hm), fun entered h hm => hcalls _ _ (h (hcalls _ _ hm))⟩
  refine ⟨fun calls x m' hvisits => ?_, Plan.relates hpath p m h hm⟩
  have hm' : I m' := hvisits.relates hpath (fun m _ => hcalls m _) h hm
  refine ⟨hm', ?_⟩
  cases x with
  | step o => exact h _ o calls m' hvisits hm'
  | task k t =>
    exact Task.relates hpath t m' (fun β o inner m'' hinner => h β o _ m'' (hvisits.trans hinner)) hm'

end

/-! ## The calls of a state -/

section

variable {α : Type} {n : Nat} {m m' : Machine}

/-- An operation enters no call, and leaves none. -/
theorem Operation.perform_calls (o : Operation α) (m : Machine) :
    (machineOf (o.perform m)).calls = m.calls ∧ (machineOf (o.perform m)).maxCalls = m.maxCalls := by
  cases o <;> simp only [perform, Eval.tick, Eval.fail, Eval.onHeap, Eval.fromHeap, Eval.readHeap,
    Eval.openScope, Eval.find?, Eval.define, Eval.declare, Eval.assign, Eval.newClosure,
    Eval.checkCalls, Eval.print, Eval.input]
  all_goals
    repeat' split
    all_goals exact ⟨rfl, rfl⟩

private theorem isPath_calls :
    Machine.IsPath fun m m' => m'.calls = m.calls ∧ m'.maxCalls = m.maxCalls where
  refl _ := ⟨rfl, rfl⟩
  trans h h' := ⟨h'.1.trans h.1, h'.2.trans h.2⟩
  inside {m m'} entered h := by
    refine ⟨?_, h.2⟩
    rw [Machine.leave_calls, h.1, Machine.enter_calls, List.drop_left]

/-- Every call that a plan enters is left again, however it ends. -/
theorem Plan.perform_calls (n : Nat) (p : Plan α) (m : Machine) :
    (machineOf (p.perform n m)).calls = m.calls ∧
      (machineOf (p.perform n m)).maxCalls = m.maxCalls :=
  Plan.relates isPath_calls p m fun _ o _ m' _ => o.perform_calls m'

theorem Task.perform_calls (n : Nat) (t : Task α) (m : Machine) :
    (machineOf (t.perform n m)).calls = m.calls ∧
      (machineOf (t.perform n m)).maxCalls = m.maxCalls :=
  Task.relates isPath_calls t m fun _ o _ m' _ => o.perform_calls m'

theorem Operation.calls_of_ok {o : Operation α} {a : α} (hrun : o.perform m = .ok a m') :
    m'.calls = m.calls ∧ m'.maxCalls = m.maxCalls := by
  simpa only [hrun, machineOf] using o.perform_calls m

theorem Task.calls_of_ok {entered : Option Call} {t : Task α} {a : α}
    (hrun : Eval.inside entered (t.perform n) m = .ok a m') :
    m'.calls = m.calls ∧ m'.maxCalls = m.maxCalls :=
  Task.relates_inside isPath_calls (fun _ o _ m' _ => o.perform_calls m') hrun

/-- In a state that is visited, the calls are active that were entered, and those that were active
    at the beginning. -/
theorem Plan.Visits.calls_eq {p : Plan α} {calls : List Call} {x : Moment}
    (h : p.Visits n m calls x m') : m'.calls = calls ++ m.calls ∧ m'.maxCalls = m.maxCalls := by
  induction h with
  | step => exact ⟨rfl, rfl⟩
  | afterStep hrun _ ih =>
    obtain ⟨hcalls, hmax⟩ := Operation.calls_of_ok hrun
    exact ⟨ih.1.trans (congrArg _ hcalls), ih.2.trans hmax⟩
  | task => exact ⟨rfl, rfl⟩
  | insideTask _ ih => exact ⟨by rw [ih.1, Machine.enter_calls, List.append_assoc], ih.2⟩
  | afterTask hrun _ ih =>
    obtain ⟨hcalls, hmax⟩ := Task.calls_of_ok hrun
    exact ⟨ih.1.trans (congrArg _ hcalls), ih.2.trans hmax⟩

end

/-! ## Where a run is unwound -/

section

variable {α : Type} {n : Nat} {u : Unwind} {m m' : Machine}

/-- A plan is unwound by an operation on its way. -/
def Plan.IsUnwoundOnWay (n : Nat) (p : Plan α) (m : Machine) (u : Unwind) : Prop :=
  ∃ (β : Type) (o : Operation β) (calls : List Call) (m₁ m₂ : Machine),
    p.Visits n m calls (.step o) m₁ ∧ o.perform m₁ = .error u m₂

private theorem Plan.isUnwoundOnWay_of_tasks
    (htasks : ∀ (β : Type) (t : Task β) m m', t.perform n m = .error u m' →
      Plan.IsUnwoundOnWay n (liftM t) m u)
    (p : Plan α) (m : Machine) (h : p.perform n m = .error u m') : p.IsUnwoundOnWay n m u := by
  -- along the plan: the step that fails is this one, or it is further on
  induction p generalizing m with
  | done a => cases h
  | step o next ih =>
    rw [Plan.perform, Eval.bind_eq] at h
    cases hrun : o.perform m with
    | ok b m₁ =>
      rw [hrun] at h
      obtain ⟨β, o', calls, m₂, m₃, hvisits, herror⟩ := ih b m₁ h
      exact ⟨β, o', calls, m₂, m₃, .afterStep hrun hvisits, herror⟩
    | error u' m₁ =>
      rw [hrun] at h
      cases h
      exact ⟨_, o, [], m, m', .step, hrun⟩
  | task entered t next ih =>
    rw [Plan.perform, Eval.bind_eq, Eval.inside_eq] at h
    cases hrun : t.perform n (m.enter entered) with
    | ok b m₁ =>
      simp only [hrun] at h
      obtain ⟨β, o, calls, m₂, m₃, hvisits, herror⟩ := ih b _ h
      have hinside : Eval.inside entered (t.perform n) m = .ok b (m₁.leave entered) := by
        rw [Eval.inside_eq, hrun]
      exact ⟨β, o, calls, m₂, m₃, .afterTask hinside hvisits, herror⟩
    | error u' m₁ =>
      simp only [hrun] at h
      cases h
      obtain ⟨β, o, calls, m₂, m₃, hvisits, herror⟩ := htasks _ t _ _ hrun
      exact ⟨β, o, _, m₂, m₃, .inTask hvisits, herror⟩

private theorem Task.isUnwoundOnWay (hfuel : u ≠ .outOfFuel) (t : Task α) (m m' : Machine)
    (h : t.perform n m = .error u m') : Plan.IsUnwoundOnWay n (liftM t) m u := by
  induction n generalizing α m m' with
  | zero =>
    rw [Task.perform_zero] at h
    cases h
    exact absurd rfl hfuel
  | succ n ih =>
    rw [Task.perform_succ] at h
    obtain ⟨β, o, calls, m₁, m₂, hvisits, herror⟩ :=
      Plan.isUnwoundOnWay_of_tasks (fun β t m m' => ih t m m') t.plan m h
    exact ⟨β, o, calls, m₁, m₂, Task.Visits.of_plan hvisits, herror⟩

/-- Whatever unwinds a plan is thrown by an operation that it visits, unless it is out of fuel. -/
theorem Plan.isUnwoundOnWay_of_error (hfuel : u ≠ .outOfFuel) {p : Plan α}
    (h : p.perform n m = .error u m') : p.IsUnwoundOnWay n m u :=
  Plan.isUnwoundOnWay_of_tasks (fun _ t m m' => Task.isUnwoundOnWay hfuel t m m') p m h

end

/-! ## Runs -/

/-- What is visited by a run that begins in a state. -/
def Program.Visits (program : Program) (fuel : Nat) : Machine → List Call → Moment → Machine → Prop :=
  program.plan.Visits fuel

end Pseudocode.Script
