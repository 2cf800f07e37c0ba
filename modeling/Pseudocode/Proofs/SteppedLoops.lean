import Pseudocode.Proofs.LoopHeaders
import Pseudocode.Proofs.LoopRounds
import Pseudocode.Proofs.DoubleFields

/-!
# Loops with a number as their step

A loop whose step is a number with a sign goes in one direction: its test and the operator of its update
are those of the sign. The loop that looks at the sign of its step in every round goes in the same
direction, because the number without its sign is positive, and it adds the step, sign included. So the
two loops do the same in every round, except that a number is subtracted from a text and added to it in
different ways.

* `evaluate_directedTest`     the sign of the step chooses the test
* `evaluate_literalUpdate`    to advance by the number is to add the step
* `agreeIn_literalLoop`       the two loops do the same in a round
-/

namespace Pseudocode

namespace Script

open Eval

namespace StepSign

/-- The number with the sign. -/
def apply (sign : StepSign) (x : Float) : Float :=
  match sign with
  | missing | plus => x
  | minus => -x

theorem evaluate_expression (sign : StepSign) (x : Float) (n : Nat) (scope : Scope) (m : Machine) :
    evaluate (n + 2) scope (sign.expression x) m = .ok (.number (sign.apply x)) m := by
  cases sign <;> rfl

end StepSign

section

variable {x : Float} (hx : Double.IsPositive x) (sign : StepSign) (up down : Expression)

include hx

theorem compare?_apply (h : Heap) :
    h.compare? (.number (sign.apply x)) (.number (Float.ofBits (UInt64.ofNat 0))) =
      some (if sign = .minus then .lt else .gt) := by
  have hzero : (Float.ofBits (UInt64.ofNat 0)).toModel.unpack = .zero .positive := rfl
  cases sign with
  | missing => exact hx.compareNumbers? hzero
  | plus => exact hx.compareNumbers? hzero
  | minus => exact hx.compareNumbers?_neg hzero

theorem evaluate_directedTest (n : Nat) (scope : Scope) (m : Machine) :
    evaluate (n + 4) scope (directedTest (sign.expression x) up down) m =
      evaluate (n + 3) scope (if sign = .minus then down else up) m := by
  have htest : evaluate (n + 3) scope (.binary nowhere .greater (sign.expression x) zeroLiteral) m =
      .ok (.bool (decide (sign ≠ .minus))) m := by
    show (evaluate (n + 2) scope (sign.expression x) >>= fun a => evaluate (n + 2) scope zeroLiteral >>=
      fun b => fromHeap fun h => h.binary .greater a b) m = _
    rw [bind_of_ok (sign.evaluate_expression x n scope m)]
    show EStateM.Result.ok (Value.bool (m.heap.compare? _ _ == some .gt)) m = _
    rw [compare?_apply hx]
    cases sign <;> rfl
  show (evaluate (n + 3) scope (.binary nowhere .greater (sign.expression x) zeroLiteral) >>= fun v =>
    if v.isTruthy then evaluate (n + 3) scope up else evaluate (n + 3) scope down) m = _
  rw [bind_of_ok htest]
  cases sign <;> rfl

end

/-- What the update of a counting loop adds or subtracts. -/
theorem evaluate_countingUpdate (operator : AssignmentOperator) {binary : BinaryOperator}
    (hoperator : operator.binary? = some binary) (name : Text) {step : Expression} {v : Value}
    {n : Nat} {scope : Scope} (hstep : ∀ m, evaluate (n + 2) scope step m = .ok v m) (m : Machine) :
    evaluate (n + 3) scope (countingUpdate operator name step) m =
      (find scope name nowhere >>= fun current => fromHeap (fun h => h.binary binary current v) >>=
        fun sum => assign scope name sum nowhere >>= fun _ => pure sum) m := by
  have hconst : evaluate (n + 2) scope step = pure v := funext hstep
  have hunfold : evaluate (n + 3) scope (countingUpdate operator name step) =
      (find scope name nowhere >>= fun current => evaluate (n + 2) scope step >>= fun operand =>
        fromHeap (fun h => h.binary binary current operand) >>= fun sum =>
          assign scope name sum nowhere >>= fun _ => pure sum) := by
    cases operator <;> cases hoperator <;> rfl
  rw [hunfold, hconst]
  simp only [pure_bind]

/-- The value of a name is a text, or one that counts as its text in a sum. -/
def Machine.HoldsText (m : Machine) (scope : Scope) (name : Text) : Prop :=
  ∃ v, m.frames.get? scope name = some v ∧ (v.isObject = true ∨ ∃ t, v = .string t)

/-- Numbers are added and subtracted, whatever they are converted from. -/
theorem Heap.add_neg (h : Heap) {v : Value} (x : Float) (hobject : v.isObject = false)
    (htext : ∀ t, v ≠ .string t) : h.add v (.number (-x)) = .number (h.toNumber v - x) := by
  rw [← Double.add_neg]
  cases v <;> first | rfl | exact absurd rfl (htext _) | simp [Value.isObject] at hobject

section

variable {x : Float} (sign : StepSign) (name : Text) (n : Nat) (scope : Scope) {m : Machine}

/-- The operator that a loop with a literal step advances by. -/
def StepSign.operator (sign : StepSign) : AssignmentOperator :=
  match sign with
  | .missing | .plus => .add
  | .minus => .subtract

theorem find_eq (scope : Scope) (name : Text) (place : Position) (m : Machine) :
    find scope name place m = match m.frames.get? scope name with
      | some v => .ok v m
      | none => .error (.failed ⟨.undefinedName name, place, m.calls⟩) m := by
  show (match m.frames.get? scope name with | some v => pure v | none => fail place _) m = _
  cases m.frames.get? scope name <;> rfl

/-- To advance by a number is to add the step, unless texts are put together by the sum. -/
theorem evaluate_literalUpdate (h : sign = .minus → ¬m.HoldsText scope name) :
    evaluate (n + 3) scope (countingUpdate sign.operator name (.number nowhere x)) m =
      evaluate (n + 3) scope (countingUpdate .add name (sign.expression x)) m := by
  rw [evaluate_countingUpdate .add rfl name (sign.evaluate_expression x n scope)]
  -- only a minus changes the operator, and only text tells the operators apart
  cases sign with
  | missing | plus => rw [StepSign.operator, evaluate_countingUpdate .add rfl name fun _ => rfl]; rfl
  | minus =>
    rw [StepSign.operator, evaluate_countingUpdate .subtract rfl name fun _ => rfl]
    cases hfound : m.frames.get? scope name with
    | none =>
      have hfind : find scope name nowhere m =
          .error (.failed ⟨.undefinedName name, nowhere, m.calls⟩) m := by rw [find_eq, hfound]
      rw [bind_of_error hfind, bind_of_error hfind]
    | some current =>
      have hfind : find scope name nowhere m = .ok current m := by rw [find_eq, hfound]
      have hnumber : ¬(current.isObject = true ∨ ∃ t, current = .string t) :=
        fun htext => h rfl ⟨current, hfound, htext⟩
      have hsum : m.heap.binary .add current (.number (-x)) = m.heap.binary .subtract current (.number x) :=
        m.heap.add_neg x (by simpa using fun hobject => hnumber (.inl hobject))
          fun t ht => hnumber (.inr ⟨t, ht⟩)
      rw [bind_of_ok hfind, bind_of_ok hfind]
      show (assign scope name (m.heap.binary .subtract current (.number x)) nowhere >>= fun _ =>
          pure (m.heap.binary .subtract current (.number x))) m =
        (assign scope name (m.heap.binary .add current (.number (-x))) nowhere >>= fun _ =>
          pure (m.heap.binary .add current (.number (-x)))) m
      rw [hsum]

end

/-! ## Both headers -/

section

variable {x : Float} (sign : StepSign) (name : Text) (up down : Expression) (body : Command)

/-- The loop whose direction is fixed. -/
def literalLoop (x : Float) (scope : Scope) : Loop :=
  ⟨scope, nowhere, some (if sign = .minus then down else up),
    some (countingUpdate sign.operator name (.number nowhere x)), body⟩

/-- The loop whose direction is decided in every round. -/
def directedLoop (x : Float) (scope : Scope) : Loop :=
  ⟨scope, nowhere, some (directedTest (sign.expression x) up down),
    some (countingUpdate .add name (sign.expression x)), body⟩

/-- In one round the two loops do the same. -/
theorem agreeIn_literalLoop (hx : Double.IsPositive x) {scope : Scope} {m : Machine}
    (hnumber : sign = .minus → ∀ due, (literalLoop sign name up down body x scope).Approaches m due →
      ¬due.HoldsText scope name) :
    (literalLoop sign name up down body x scope).AgreeIn (directedLoop sign name up down body x scope)
      m := by
  have htest (m : Machine) : Agree (fun n => evaluate n scope (if sign = .minus then down else up))
      (fun n => evaluate n scope (directedTest (sign.expression x) up down)) m :=
    agree_of_shift (stabilizes_evaluate _ _) (stabilizes_evaluate _ _) 3 4 fun n =>
      (evaluate_directedTest hx sign up down n scope m).symm
  refine ⟨Loop.agree_approach htest, fun due hdue => Loop.agree_advance ?_⟩
  refine agree_of_shift (stabilizes_evaluate _ _) (stabilizes_evaluate _ _) 3 3 fun n => ?_
  exact evaluate_literalUpdate sign name n scope fun hminus => hnumber hminus due hdue

end

end Script

end Pseudocode
