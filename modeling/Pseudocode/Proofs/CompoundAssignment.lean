import Pseudocode.Proofs.EvaluationFuel
import Pseudocode.Report.Location

/-!
# Compound assignments

A compound assignment walks its target twice: once to read the old value, and once more to put the new
one there. So it is the plain assignment of what its operator makes of the target, and everything that
the target does is done twice. A target that does nothing is not told apart from one that is walked
once, as long as the value leaves it alone.

* `Expression.isSilent`                  an expression that does nothing but look
* `evaluate_isSilent`                    it leaves the machine as it was
* `evaluate_compound`                    how the element of a compound assignment is found twice
* `evaluate_compound_eq_updateElement`   when it might as well be found once
* `compound_assignment_walks_twice`      both together
-/

namespace Pseudocode.Script

open Eval

/-! ## Silence -/

/-- Whether the expression does nothing but look: it calls nothing, assigns nothing and makes no array. -/
def Expression.isSilent : Expression → Bool
  | .number _ _ | .string _ _ | .bool _ _ | .null _ | .undefined _ | .identifier _ _ => true
  | .unary _ _ operand => operand.isSilent
  | .binary _ _ left right => left.isSilent && right.isSilent
  | .conditional _ test yes no => test.isSilent && yes.isSilent && no.isSilent
  | .index _ object key => object.isSilent && key.isSilent
  | .member _ object _ => object.isSilent
  | .array _ _ | .assign _ _ _ _ | .call _ _ _ | .construct _ _ _ => false

namespace Eval

variable {α β : Type} {x : Eval α}

/-- The machine is left as it was, however it ends. -/
def IsSilent (x : Eval α) : Prop := ∀ m, (∃ a, x m = .ok a m) ∨ ∃ u, x m = .error u m

theorem isSilent_pure (a : α) : IsSilent (pure a) := fun _ => .inl ⟨a, rfl⟩

theorem isSilent_fail (place : Position) (cause : ErrorCause) : IsSilent (fail (α := α) place cause) :=
  fun _ => .inr ⟨_, rfl⟩

theorem isSilent_fromHeap (look : Heap → α) : IsSilent (fromHeap look) := fun _ => .inl ⟨_, rfl⟩

theorem isSilent_find? (scope : Scope) (name : Text) : IsSilent (find? scope name) :=
  fun _ => .inl ⟨_, rfl⟩

theorem isSilent_readHeap (place : Position) (look : Heap → Except ErrorCause α) :
    IsSilent (readHeap place look) := by
  intro m
  simp only [readHeap]
  split
  · exact .inl ⟨_, rfl⟩
  · exact .inr ⟨_, rfl⟩

theorem IsSilent.bind {f : α → Eval β} (hx : x.IsSilent) (hf : ∀ a, (f a).IsSilent) :
    IsSilent (x >>= f) := by
  intro m
  simp only [Bind.bind, EStateM.bind]
  rcases hx m with ⟨a, hrun⟩ | ⟨u, hrun⟩ <;> rw [hrun]
  · exact hf a m
  · exact .inr ⟨u, rfl⟩

theorem isSilent_find (scope : Scope) (name : Text) (place : Position) :
    IsSilent (find scope name place) := by
  refine (isSilent_find? scope name).bind fun found => ?_
  cases found with
  | some v => exact isSilent_pure v
  | none => exact isSilent_fail _ _

theorem isSilent_unary (operator : UnaryOperator) (value : Value) : IsSilent (unary operator value) := by
  cases operator <;> simp only [unary]
  case not | typeOf | await => exact isSilent_pure _
  case negate | plus => exact isSilent_fromHeap _

end Eval

/-- An expression that does nothing but look leaves the machine as it was. -/
theorem evaluate_isSilent (n : Nat) (scope : Scope) {e : Expression} (h : e.isSilent = true) :
    IsSilent (evaluate n scope e) := by
  -- on the fuel; all parts of a silent expression are silent
  induction n generalizing e with
  | zero => exact fun _ => .inr ⟨_, rfl⟩
  | succ n ih =>
    cases e with
    | number | string | bool | null | undefined => exact isSilent_pure _
    | identifier place name =>
      simp only [evaluate]
      exact isSilent_find scope name place
    | unary place operator operand =>
      by_cases htypeOf : ∃ p name, operator = .typeOf ∧ operand = .identifier p name
      · obtain ⟨p, name, rfl, rfl⟩ := htypeOf
        simp only [evaluate]
        exact (isSilent_find? scope name).bind fun _ => isSilent_pure _
      · rw [evaluate_unary n scope place htypeOf]
        exact (ih (e := operand) h).bind fun value => isSilent_unary operator value
    | binary place operator left right =>
      obtain ⟨hleft, hright⟩ := Bool.and_eq_true_iff.1 h
      cases operator with
      | and | or =>
        simp only [evaluate]
        refine (ih hleft).bind fun value => ?_
        split
        · first | exact ih hright | exact isSilent_pure _
        · first | exact ih hright | exact isSilent_pure _
      | _ =>
        simp only [evaluate]
        exact (ih hleft).bind fun a => (ih hright).bind fun b => isSilent_fromHeap _
    | conditional place test yes no =>
      simp only [Expression.isSilent, Bool.and_eq_true] at h
      obtain ⟨⟨htest, hyes⟩, hno⟩ := h
      simp only [evaluate]
      refine (ih htest).bind fun value => ?_
      split
      · exact ih hyes
      · exact ih hno
    | index place object key =>
      obtain ⟨hobject, hkey⟩ := Bool.and_eq_true_iff.1 h
      simp only [evaluate]
      exact (ih hobject).bind fun object => (ih hkey).bind fun key => isSilent_readHeap place _
    | member place object name =>
      simp only [evaluate]
      exact (ih (e := object) h).bind fun object => isSilent_readHeap place _
    | array | assign | call | construct => cases h

/-! ## Elements -/

/-- The name of the element that a key stands for. -/
def elementName (n : Nat) (scope : Scope) (key : Expression) : Eval Text := do
  let key ← evaluate n scope key
  fromHeap fun h => h.display key

theorem elementName_isSilent (n : Nat) (scope : Scope) {key : Expression} (h : key.isSilent = true) :
    IsSilent (elementName n scope key) :=
  (evaluate_isSilent n scope h).bind fun _ => isSilent_fromHeap _

theorem Heap.getIndex_display (h : Heap) (object key : Value) :
    h.getIndex object (.string (h.display key)) = h.getIndex object key := by
  simp only [getIndex, display, plainText]

/-- An element is read by its name. -/
theorem elementName_bind_getIndex {α : Type} (n : Nat) (scope : Scope) (place : Position) (object : Value)
    (key : Expression) (f : Value → Eval α) :
    (do
      let name ← elementName n scope key
      let current ← readHeap place fun h => h.getIndex object (.string name)
      f current) = (do
      let key ← evaluate n scope key
      let current ← readHeap place fun h => h.getIndex object key
      f current) := by
  rw [elementName, bind_assoc]
  apply bind_congr
  intro key
  funext m
  simp only [Bind.bind, EStateM.bind, fromHeap, readHeap, Heap.getIndex_display]

/-- Changes an element that is found once: its object and its key are evaluated, the old value is read,
    the operand is evaluated, and the result goes to the element that was read. -/
def updateElement (n : Nat) (scope : Scope) (place : Position) (operator : BinaryOperator)
    (object key value : Expression) : Eval Value := do
  let object ← evaluate n scope object
  let name ← elementName n scope key
  let current ← readHeap place fun h => h.getIndex object (.string name)
  let operand ← evaluate (n + 1) scope value
  let result ← fromHeap fun h => h.binary operator current operand
  onHeap place fun h => h.setProperty object name result
  return result

variable {operator : AssignmentOperator} {binary : BinaryOperator}

/-- A compound assignment finds its element before it reads the old value, and again before it writes
    the new one. -/
theorem evaluate_compound (hoperator : operator.binary? = some binary) (n : Nat) (scope : Scope)
    (place target : Position) (object key value : Expression) :
    evaluate (n + 2) scope (.assign place operator (.index target object key) value) = (do
      let found ← evaluate n scope object
      let name ← elementName n scope key
      let current ← readHeap target fun h => h.getIndex found (.string name)
      let operand ← evaluate (n + 1) scope value
      let result ← fromHeap fun h => h.binary binary current operand
      let found ← evaluate n scope object
      let name ← elementName n scope key
      onHeap target fun h => h.setProperty found name result
      return result) := by
  have hstore (value : Value) : store (n + 1) scope (.index target object key) value = (do
      let found ← evaluate n scope object
      let name ← elementName n scope key
      onHeap target fun h => h.setProperty found name value) := by
    simp only [store, elementName, bind_assoc]
  -- the target is read by its key, which is the same as to read it by the name of the key
  simp only [elementName_bind_getIndex]
  cases operator <;> cases hoperator
  all_goals
    simp only [evaluate, AssignmentOperator.binary?, hstore, bind_assoc]

/-- `x` leaves what `y` comes to: it is the same after `x` as it was before. -/
def Eval.Leaves {α β : Type} (x : Eval α) (y : Eval β) : Prop :=
  ∀ m a m' b, x m = .ok a m' → y m = .ok b m → y m' = .ok b m'

theorem Eval.IsSilent.leaves {α β : Type} {x : Eval α} (hx : x.IsSilent) (y : Eval β) : x.Leaves y := by
  intro m a m' b hrun hy
  rcases hx m with ⟨a', heq⟩ | ⟨u, heq⟩ <;> rw [heq] at hrun <;> cases hrun
  exact hy

/-- If finding the element does nothing, and the value leaves alone what is found, then the element
    might as well be found once. -/
theorem evaluate_compound_eq_updateElement (hoperator : operator.binary? = some binary) {n : Nat}
    {scope : Scope} (place target : Position) {object key value : Expression}
    (hobject : IsSilent (evaluate n scope object)) (hname : IsSilent (elementName n scope key))
    (hkeepsObject : (evaluate (n + 1) scope value).Leaves (evaluate n scope object))
    (hkeepsName : (evaluate (n + 1) scope value).Leaves (elementName n scope key)) :
    evaluate (n + 2) scope (.assign place operator (.index target object key) value) =
      updateElement n scope target binary object key value := by
  rw [evaluate_compound hoperator, updateElement]
  funext m
  rcases hobject m with ⟨found, hfound⟩ | ⟨u, hfound⟩
  · rcases hname m with ⟨name, hnamed⟩ | ⟨u, hnamed⟩
    · simp only [Bind.bind, EStateM.bind, hfound, hnamed]
      rcases isSilent_readHeap target (fun h => h.getIndex found (.string name)) m with
        ⟨current, hcurrent⟩ | ⟨u, hcurrent⟩
      · simp only [hcurrent]
        cases hvalue : evaluate (n + 1) scope value m with
        | ok operand m' =>
          -- the second walk comes to the same element as the first one
          have hagain := hkeepsObject m operand m' found hvalue hfound
          have hnamedAgain := hkeepsName m operand m' name hvalue hnamed
          simp only [fromHeap, hagain, hnamedAgain]
        | error u m' => rfl
      · simp only [hcurrent]
    · simp only [Bind.bind, EStateM.bind, hfound, hnamed]
  · simp only [Bind.bind, EStateM.bind, hfound]

/-! ## Two walks -/

/-- A compound assignment is the plain assignment of what the operator makes of the target. -/
theorem evaluate_compound_plain (hoperator : operator.binary? = some binary) (n : Nat) (scope : Scope)
    (place other : Position) (target value : Expression) :
    ExhaustedOrSame Value (evaluate (n + 1) scope (.assign place operator target value))
      (evaluate (n + 2) scope (.assign place .plain target (.binary other binary target value))) := by
  have hsame {α : Type} (x : Eval α) : ExhaustedOrSame α x x := fun m => .inr rfl
  have hmore := respects_add exhaustedOrSame_isClosed (fun _ _ m => .inl ⟨m, rfl⟩) n 1
  have hcompound : evaluate (n + 1) scope (.assign place operator target value) = (do
      let current ← evaluate n scope target
      let operand ← evaluate n scope value
      let result ← fromHeap fun h => h.binary binary current operand
      store n scope target result
      return result) := by
    simp only [evaluate, hoperator]
  have hplain : evaluate (n + 2) scope (.assign place .plain target (.binary other binary target value)) =
      (do
        let current ← evaluate n scope target
        let operand ← evaluate n scope value
        let result ← fromHeap fun h => h.binary binary current operand
        store (n + 1) scope target result
        return result) := by
    cases operator <;> cases hoperator <;>
      simp only [evaluate, AssignmentOperator.binary?, bind_assoc]
  -- both walk alike, but the plain one has more fuel left for the second walk
  rw [hcompound, hplain]
  exact exhaustedOrSame_isClosed.bind (hsame _) fun current =>
    exhaustedOrSame_isClosed.bind (hsame _) fun operand =>
      exhaustedOrSame_isClosed.bind (hsame _) fun result =>
        exhaustedOrSame_isClosed.bind (hmore.store scope target result) fun _ => hsame _

/-- A compound assignment walks its target twice, as the plain assignment does that spells it out. If
    finding an element does nothing, then this is the same as to find it once, to read it, and to write
    it, unless the value changes what is found. And finding it does nothing if the object and the key do
    nothing but look. -/
theorem compound_assignment_walks_twice (hoperator : operator.binary? = some binary) :
    (∀ n scope place other target value,
      ExhaustedOrSame Value (evaluate (n + 1) scope (.assign place operator target value))
        (evaluate (n + 2) scope (.assign place .plain target (.binary other binary target value)))) ∧
    (∀ n scope place target object key value,
      IsSilent (evaluate n scope object) → IsSilent (elementName n scope key) →
      (evaluate (n + 1) scope value).Leaves (evaluate n scope object) →
      (evaluate (n + 1) scope value).Leaves (elementName n scope key) →
        evaluate (n + 2) scope (.assign place operator (.index target object key) value) =
          updateElement n scope target binary object key value) ∧
    (∀ n scope (e : Expression), e.isSilent = true →
      IsSilent (evaluate n scope e) ∧ IsSilent (elementName n scope e)) := by
  refine ⟨?_, ?_, fun n scope e he => ⟨evaluate_isSilent n scope he, elementName_isSilent n scope he⟩⟩
  · intro n scope place other target value
    exact evaluate_compound_plain hoperator n scope place other target value
  · intro n scope place target object key value hobject hname hkeepsObject hkeepsName
    exact evaluate_compound_eq_updateElement hoperator place target hobject hname hkeepsObject hkeepsName

/-- An element whose object, key and operand are a name, a literal and another name. -/
theorem compound_assignment_walks_twice_names :
    AssignmentOperator.add.binary? = some BinaryOperator.add ∧
      evaluate 5 [0] (.assign ⟨1, 1⟩ .add (.index ⟨1, 1⟩ (.identifier ⟨1, 1⟩ (text "a"))
          (.string ⟨1, 3⟩ (text "length"))) (.identifier ⟨1, 16⟩ (text "b"))) =
        updateElement 3 [0] ⟨1, 1⟩ .add (.identifier ⟨1, 1⟩ (text "a")) (.string ⟨1, 3⟩ (text "length"))
          (.identifier ⟨1, 16⟩ (text "b")) := by
  have hadd : AssignmentOperator.add.binary? = some .add := rfl
  obtain ⟨-, honce, hsilent⟩ := compound_assignment_walks_twice hadd
  have hvalue := (hsilent 4 [0] (.identifier ⟨1, 16⟩ (text "b")) rfl).1
  exact ⟨hadd, honce 3 [0] _ _ _ _ _ (hsilent 3 [0] _ rfl).1 (hsilent 3 [0] _ rfl).2
    (hvalue.leaves _) (hvalue.leaves _)⟩

/-- A key that asks for input asks for it twice. -/
theorem compound_assignment_asks_twice :
    ∃ program, Program.parse (Translation.wrapped (text "let a = []; a[input()] += true;"))
        = .ok program ∧
      (program.run (Machine.start (.start 1000 .cumulative) 5 [[], []] none)).log =
        [.input [], .input []] := by
  let program : Program := [.function ⟨1, 1⟩ (text "__program__") ⟨1, 16⟩
    [text "print", text "input"] true
    [.declaration .let [⟨⟨2, 5⟩, text "a", some (.array ⟨2, 9⟩ [])⟩],
      .expression (.assign ⟨2, 13⟩ .add
        (.index ⟨2, 14⟩ (.identifier ⟨2, 13⟩ (text "a"))
          (.call ⟨2, 15⟩ (.identifier ⟨2, 15⟩ (text "input")) []))
        (.bool ⟨2, 27⟩ true))]]
  have hparse : Program.parse
      (Translation.wrapped (text "let a = []; a[input()] += true;")) = .ok program := by
    with_unfolding_all rfl
  exact ⟨program, hparse, by decide +kernel⟩

end Pseudocode.Script
