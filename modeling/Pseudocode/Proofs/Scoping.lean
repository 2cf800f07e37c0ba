import Pseudocode.Proofs.Frames
import Pseudocode.Proofs.OrderlyPlans

/-!
# Names stay where they are declared

A block, a `for` statement and a call have scopes of their own, and what they declare is bound there.
In every scope that there was before they bind nothing and unbind nothing, in every state on their way
and however they end. But the outermost scope gets the variables that are assigned to without a
declaration.

* `Operation.perform_frames`        what an operation does to names
* `Task.Visits.bound_inside`        such a task binds names in new frames only
* `Task.names_stay_enclosed`        what such a task does to names
-/

namespace Pseudocode.Script

/-! ## Names in frames -/

namespace Frames

variable {fs : Frames} {scope : Scope} {name : Text}

instance (fs : Frames) (id : Nat) (name : Text) : Decidable (fs.IsBound id name) :=
  decidable_of_iff (((fs.frame id).lookup name).isSome = true) Option.isSome_iff_exists

theorem isBound_modify (fs : Frames) (id : Nat) (name : Text) (b : Binding) (other : Nat)
    (key : Text) :
    Frames.IsBound (fs.modify id (Frame.set name b)) other key ↔
      fs.IsBound other key ∨ (id < fs.size ∧ other = id ∧ key = name) := by
  by_cases hid : id < fs.size
  · simp only [IsBound, lookup_modify hid]
    by_cases hsame : other = id ∧ key = name
    · simp [hsame, hid]
    · simp [hsame]
  · have hsame : fs.modify id (Frame.set name b) = fs := by
      simp [Array.modify, Array.modifyM, hid]
    rw [hsame]
    simp [hid]

theorem isBound_bind (fs : Frames) (scope : Scope) (name : Text) (b : Binding) (id : Nat)
    (key : Text) :
    (fs.bind scope name b).IsBound id key ↔
      fs.IsBound id key ∨ (id < fs.size ∧ scope.head? = some id ∧ key = name) := by
  cases scope with
  | nil => simp [bind]
  | cons first outer =>
    rw [bind, isBound_modify]
    simp only [List.head?_cons, Option.some.injEq]
    constructor
    · rintro (h | ⟨h, rfl, rfl⟩)
      · exact .inl h
      · exact .inr ⟨h, rfl, rfl⟩
    · rintro (h | ⟨h, rfl, rfl⟩)
      · exact .inl h
      · exact .inr ⟨h, rfl, rfl⟩

/-- An assignment to a bound name binds nothing. -/
theorem isBound_assign (hnone : fs.assignFault? name scope = none) (value : Value) (id : Nat)
    (key : Text) : (fs.assign name value scope).IsBound id key ↔ fs.IsBound id key := by
  obtain ⟨found, -, old, hold, -, hassign⟩ := exists_assign_eq hnone value
  rw [hassign, isBound_modify]
  refine ⟨?_, .inl⟩
  rintro (h | ⟨-, rfl, rfl⟩)
  · exact h
  · exact ⟨old, hold⟩

theorem isBound_push (fs : Frames) (id : Nat) (key : Text) :
    Frames.IsBound (fs.push []) id key ↔ fs.IsBound id key := by
  rw [IsBound, frame_push, IsBound]

@[simp] theorem size_bind (fs : Frames) (scope : Scope) (name : Text) (b : Binding) :
    (fs.bind scope name b).size = fs.size := by
  cases scope <;> simp [bind]

/-- Names are only gained, and only where `New` says. -/
structure Gains (New : Nat → Text → Prop) (fs fs' : Frames) : Prop where
  size_le : fs.size ≤ fs'.size
  keeps : ∀ id name, fs.IsBound id name → fs'.IsBound id name
  gained : ∀ id name, fs'.IsBound id name → fs.IsBound id name ∨ New id name

namespace Gains

variable {New New' : Nat → Text → Prop} {fs' fs'' : Frames}

theorem refl (New : Nat → Text → Prop) (fs : Frames) : fs.Gains New fs :=
  ⟨Nat.le_refl _, fun _ _ h => h, fun _ _ => .inl⟩

theorem trans (h : fs.Gains New fs') (h' : fs'.Gains New fs'') : fs.Gains New fs'' where
  size_le := Nat.le_trans h.size_le h'.size_le
  keeps id name hname := h'.keeps id name (h.keeps id name hname)
  gained id name hname := (h'.gained id name hname).elim (h.gained id name) .inr

theorem mono (h : fs.Gains New fs') (hnew : ∀ id name, New id name → New' id name) :
    fs.Gains New' fs' :=
  ⟨h.size_le, h.keeps, fun id name hname => (h.gained id name hname).imp_right (hnew id name)⟩

/-- A name is bound in the innermost frame of a scope. -/
theorem bind (fs : Frames) (scope : Scope) (name : Text) (b : Binding) :
    fs.Gains (fun id key => scope.head? = some id ∧ key = name) (fs.bind scope name b) where
  size_le := by rw [size_bind]
  keeps id key hkey := (isBound_bind fs scope name b id key).2 (.inl hkey)
  gained id key hkey := ((isBound_bind fs scope name b id key).1 hkey).imp_right And.right

/-- A name that is bound is assigned to. -/
theorem assign (hnone : fs.assignFault? name scope = none) (value : Value) :
    fs.Gains New (fs.assign name value scope) where
  size_le := by
    obtain ⟨found, -, old, -, -, hassign⟩ := exists_assign_eq hnone value
    simp [hassign]
  keeps id key := (isBound_assign hnone value id key).2
  gained id key hkey := .inl ((isBound_assign hnone value id key).1 hkey)

theorem push (New : Nat → Text → Prop) (fs : Frames) : fs.Gains New (fs.push []) where
  size_le := by simp
  keeps id key := (isBound_push fs id key).2
  gained id key hkey := .inl ((isBound_push fs id key).1 hkey)

end Gains

end Frames

/-! ## What an operation does to names -/

/-- An assignment to a name that is bound nowhere in its scope. -/
def Operation.CreatesGlobal {α : Type} (fs : Frames) (name : Text) : Operation α → Prop
  | .assign scope key _ _ => key = name ∧ ∀ id ∈ scope, ¬fs.IsBound id name
  | _ => False

/-- An operation unbinds no name. It binds one in the innermost frame of the scope that it declares
    the name in, or it is an assignment that makes a variable of the outermost frame. -/
theorem Operation.perform_gains {α : Type} (o : Operation α) (m : Machine) :
    m.frames.Gains (fun id name => (∃ scope ∈ o.boundIn?, scope.head? = some id) ∨
      (id = 0 ∧ o.CreatesGlobal m.frames name)) (machineOf (o.perform m)).frames := by
  -- frames are written by four operations only
  cases o with
  | openScope scope => exact .push _ _
  | define scope name value =>
    exact (Frames.Gains.bind m.frames scope name _).mono fun id key h => .inl ⟨scope, rfl, h.1⟩
  | declare scope name binding place =>
    simp only [perform, Eval.declare]
    split
    · exact .refl _ _
    · rename_i hnone
      simp only [machineOf, Frames.declare, hnone, Option.isSome_none, Bool.false_eq_true, if_false]
      exact (Frames.Gains.bind m.frames scope name _).mono fun id key h => .inl ⟨scope, rfl, h.1⟩
  | assign scope name value place =>
    simp only [perform, Eval.assign]
    split
    · rename_i hnone
      exact .assign hnone value
    · rename_i hnone
      -- a name that no frame has becomes a global one
      refine (Frames.Gains.bind m.frames Machine.globalScope name _).mono fun id key h => .inr ?_
      obtain ⟨hid, rfl⟩ := h
      refine ⟨(Option.some.inj hid).symm, rfl, fun id hmem => ?_⟩
      rintro ⟨b, hb⟩
      rw [Frames.lookup_of_notFound hnone id hmem] at hb
      cases hb
    · exact .refl _ _
  | _ =>
    simp only [perform, Eval.tick, Eval.fail, Eval.onHeap, Eval.fromHeap, Eval.readHeap, Eval.find?,
      Eval.newClosure, Eval.checkCalls, Eval.print, Eval.input]
    repeat' split
    all_goals exact .refl _ _

/-! ## Where tasks bind names -/

section

variable {α : Type} {n : Nat} {m m' : Machine} {calls : List Call}

private theorem isPath_size : Machine.IsPath fun m m' => m.frames.size ≤ m'.frames.size where
  refl _ := Nat.le_refl _
  trans := Nat.le_trans
  inside _ h := h

/-- An orderly plan binds names in the scope it may bind them in, and in new frames. -/
theorem Plan.Visits.bound_inside {p : Plan α} {β : Type} {o : Operation β}
    (h : p.Visits n m calls (.step o) m') {site made : Option Position} {s : Stage}
    (horderly : p.IsOrderly site made s) {scope : Scope} (hscope : o.boundIn? = some scope) :
    s.scope = some scope ∨ ∃ id, scope.head? = some id ∧ m.frames.size ≤ id := by
  generalize hmoment : Moment.step o = moment at h
  induction h generalizing s site made with
  | step =>
    cases hmoment
    exact .inl (horderly.1 scope hscope)
  | @afterStep _ _ _ o' _ m m₁ _ b _ _ hrun _ ih =>
    have hsize := (o'.perform_gains m).size_le
    rw [hrun] at hsize
    rcases ih (horderly.2 b) hmoment with hscope | ⟨id, hid, hle⟩
    · cases o' with
      | openScope outer =>
        -- what follows binds names in the scope that is opened
        cases hrun
        right
        obtain rfl := Option.some.inj hscope
        exact ⟨_, rfl, Nat.le_refl _⟩
      | _ => exact .inl hscope
    · exact .inr ⟨id, hid, Nat.le_trans hsize hle⟩
  | task => cases hmoment
  | @insideTask _ _ _ entered t _ _ _ _ _ _ ih =>
    rcases ih t.plan_isOrderly hmoment with hscope | hnew
    · exact .inl (horderly.1 scope hscope)
    · exact .inr hnew
  | afterTask hrun _ ih =>
    have hsize := Task.relates_inside isPath_size
      (fun _ o _ m' _ => (o.perform_gains m').size_le) hrun
    rcases ih (horderly.2.2.2 _) hmoment with hscope | ⟨id, hid, hle⟩
    · exact .inl hscope
    · exact .inr ⟨id, hid, Nat.le_trans hsize hle⟩

/-- Expressions, calls, blocks and `for` statements: what they declare is bound in scopes of their
    own. -/
def Task.isEnclosed : Task α → Bool
  | .evaluate _ _ | .evaluateAll _ _ | .store _ _ _ | .callClosure _ _ _ | .run _ (.block _)
  | .run _ (.forLoop _ _ _ _ _) => true
  | _ => false

/-- Such a task does not bind anything in the scope that it stands in. -/
private theorem Task.plan_isOrderly_of_isEnclosed {t : Task α} (ht : t.isEnclosed = true) :
    t.plan.IsOrderly t.callSite? t.madeCall? ⟨none, false⟩ := by
  cases t with
  | evaluate | evaluateAll | store | callClosure => exact Task.plan_isOrderly _
  | run scope c =>
    cases c with
    | forLoop place start test update body =>
      exact .step rfl ((Plan.run_isOrderly scope (.forLoop place start test update body) false).2)
    | block body => exact .step rfl ((Plan.run_isOrderly scope (.block body) false).2)
    | _ => cases ht
  | _ => cases ht

theorem Task.Visits.bound_inside {t : Task α} (ht : t.isEnclosed = true) {β : Type}
    {o : Operation β} (h : t.Visits n m calls (.step o) m') {scope : Scope}
    (hscope : o.boundIn? = some scope) : ∃ id, scope.head? = some id ∧ m.frames.size ≤ id := by
  cases h with
  | insideTask h =>
    rcases Plan.Visits.bound_inside h (Task.plan_isOrderly_of_isEnclosed ht) hscope with hnone | hnew
    · cases hnone
    · exact hnew
  | afterTask _ h => cases h

/-! ## What a task does to names -/

/-- On the way of the task a name is assigned to that is bound nowhere in the scope of the
    assignment. -/
def Task.CreatesGlobal (n : Nat) (t : Task α) (m : Machine) (name : Text) : Prop :=
  ∃ calls scope value place m', t.Visits n m calls (.step (.assign scope name value place)) m' ∧
    ∀ id ∈ scope, ¬m'.frames.IsBound id name

/-- The states that a task is in: those on its way, and the one at its end, however it ends. -/
def Task.Reaches (n : Nat) (t : Task α) (m m' : Machine) : Prop :=
  (∃ calls x, t.Visits n m calls x m') ∨ m' = machineOf (t.perform n m)

/-- The names that an enclosed task binds: those in new frames, and variables of the outermost one. -/
def Task.Binds (n : Nat) (t : Task α) (m : Machine) (id : Nat) (name : Text) : Prop :=
  m.frames.size ≤ id ∨ (id = 0 ∧ t.CreatesGlobal n m name)

private theorem isPath_gains (New : Nat → Text → Prop) :
    Machine.IsPath fun m m' => m.frames.Gains New m'.frames where
  refl _ := .refl _ _
  trans := .trans
  inside _ h := h

private theorem Task.does_gains {t : Task α} (ht : t.isEnclosed = true) :
    Plan.Does (fun m₁ m₂ => m₁.frames.Gains (t.Binds n m) m₂.frames) n (liftM t) m := by
  refine fun β o calls m₁ hvisits => (o.perform_gains m₁).mono fun id name hnew => ?_
  rcases hnew with ⟨scope, hscope, hhead⟩ | ⟨hzero, hcreates⟩
  · obtain ⟨new, hnew, hle⟩ := Task.Visits.bound_inside ht hvisits hscope
    rw [hhead] at hnew
    exact .inl (Option.some.inj hnew ▸ hle)
  · cases o with
    | assign scope key value place =>
      obtain ⟨rfl, hunbound⟩ := hcreates
      exact .inr ⟨hzero, calls, scope, value, place, m₁, hvisits, hunbound⟩
    | _ => cases hcreates

theorem Task.Reaches.gains {t : Task α} (ht : t.isEnclosed = true) (h : t.Reaches n m m') :
    m.frames.Gains (t.Binds n m) m'.frames := by
  rcases h with ⟨calls, x, hvisits⟩ | rfl
  · exact Plan.Visits.relates (isPath_gains _) (fun m _ => .refl _ _) hvisits (Task.does_gains ht)
  · exact Task.relates (isPath_gains _) t m (Task.does_gains ht)

/-- In the scopes that there were before, an expression, a call, a block or a `for` statement binds
    and unbinds nothing. Only the outermost scope gains names, and only those that are assigned to
    where they are not bound. -/
theorem Task.names_stay_enclosed {t : Task α} (ht : t.isEnclosed = true) (h : t.Reaches n m m') :
    ∀ id < m.frames.size, ∀ name,
      (m.frames.IsBound id name → m'.frames.IsBound id name) ∧
      (m'.frames.IsBound id name →
        m.frames.IsBound id name ∨ (id = 0 ∧ t.CreatesGlobal n m name)) := by
  have hgains := h.gains ht
  refine fun id hid name => ⟨hgains.keeps id name, fun hbound => ?_⟩
  rcases hgains.gained id name hbound with hold | hnew | hcreated
  · exact .inl hold
  · exact absurd hid (Nat.not_lt_of_le hnew)
  · exact .inr hcreated

end

/-- A `for` statement with a variable of its own, and an assignment to an undeclared one. -/
theorem Task.names_stay_enclosed_for :
    ∃ c m, Program.parse (text "for (let i = true; i; i = false) x = i;") = .ok [c] ∧
      Program.Visits [c] 40 (Grant.start ⟨.counting 20 0, 5, [], none⟩) [⟨topLevel, nowhere⟩]
        (.task 38 (.run Machine.globalScope c)) m ∧
      (Task.run Machine.globalScope c).CreatesGlobal 38 m (text "x") ∧
      ¬(machineOf ((Task.run Machine.globalScope c).perform 38 m)).frames.IsBound 0 (text "i") := by
  let c : Command := .forLoop ⟨1, 1⟩
    (some (.declaration .let [⟨⟨1, 10⟩, text "i", some (.bool ⟨1, 14⟩ true)⟩]))
    (some (.identifier ⟨1, 20⟩ (text "i")))
    (some (.assign ⟨1, 23⟩ .plain (.identifier ⟨1, 23⟩ (text "i")) (.bool ⟨1, 27⟩ false)))
    (.expression (.assign ⟨1, 34⟩ .plain (.identifier ⟨1, 34⟩ (text "x"))
      (.identifier ⟨1, 38⟩ (text "i"))))
  let m : Machine := Machine.enter (Grant.start ⟨.counting 20 0, 5, [], none⟩)
    (some ⟨topLevel, nowhere⟩)
  have hparse : Program.parse (text "for (let i = true; i; i = false) x = i;") = .ok [c] := by
    with_unfolding_all rfl
  have hvisits : Program.Visits [c] 40 (Grant.start ⟨.counting 20 0, 5, [], none⟩)
      [⟨topLevel, nowhere⟩] (.task 38 (.run Machine.globalScope c)) m := by
    have hall : (Task.runAll Machine.globalScope [c]).Visits 39 m []
        (.task 38 (.run Machine.globalScope c)) m := Task.Visits.of_plan .task
    have hblock : (Task.runBlock Machine.globalScope [c]).Visits 40 m []
        (.task 38 (.run Machine.globalScope c)) m := Task.Visits.of_plan hall
    exact Plan.Visits.inTask hblock
  have hends := Task.names_stay_enclosed (show (Task.run Machine.globalScope c).isEnclosed = true from rfl)
    (show (Task.run Machine.globalScope c).Reaches 38 m _ from .inr rfl) 0 (by decide) (text "x")
  refine ⟨c, m, hparse, hvisits, ?_, by decide +kernel⟩
  rcases hends.2 (by decide +kernel) with hbefore | ⟨-, hcreates⟩
  · exact absurd hbefore (by decide +kernel)
  · exact hcreates

end Pseudocode.Script
