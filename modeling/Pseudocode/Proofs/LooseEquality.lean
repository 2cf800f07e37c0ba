import Pseudocode.Proofs.DoubleFields

/-!
# Equality with conversions

Values of different kinds are equal if what they convert to is equal. It does not matter which of them
is converted: equality is symmetric, and values that are equal without conversions stay so with them.

* `Heap.looseEquals_comm`          equality with conversions is symmetric
* `Heap.looseEquals_of_strictEquals`  what is equal without conversions is equal with them
* `Heap.looseEquals_laws`          how equality with conversions goes with nullish values and objects
-/

namespace Pseudocode.Script

/-! ## Equality of values -/

theorem Value.strictEquals_comm (a b : Value) : a.strictEquals b = b.strictEquals a := by
  cases a <;> cases b <;>
    first | rfl | exact Double.beq_comm _ _ | exact Bool.beq_comm

theorem Value.isNullish_iff {v : Value} : v.isNullish = true ↔ v = .undefined ∨ v = .null := by
  cases v <;> simp [isNullish]

namespace Heap

variable {h : Heap} {a b : Value}

theorem primitiveEquals_comm (h : Heap) (a b : Value) :
    h.primitiveEquals a b = h.primitiveEquals b a := by
  cases a <;> cases b <;>
    first | exact Double.beq_comm _ _ | exact Bool.beq_comm

/-- Equality with conversions is symmetric. -/
theorem looseEquals_comm (h : Heap) (a b : Value) : h.looseEquals a b = h.looseEquals b a := by
  rw [looseEquals, looseEquals, Bool.or_comm a.isNullish, Bool.and_comm a.isNullish,
    Bool.and_comm a.isObject, Value.strictEquals_comm a, primitiveEquals_comm h (h.toPrimitive a)]

/-- Nothing but a nullish value equals a nullish value. -/
theorem looseEquals_of_isNullish (ha : a.isNullish = true) : h.looseEquals a b = b.isNullish := by
  simp [looseEquals, ha]

/-- Objects are equal to what their text is equal to. -/
theorem looseEquals_of_isObject (ha : a.isObject = true) (hb : b.isNullish = false)
    (hb' : b.isObject = false) : h.looseEquals a b = h.looseEquals (.string (h.display a)) b := by
  have hnullish : a.isNullish = false := by cases a <;> first | rfl | cases ha
  have hstring : (Value.string (h.display a)).isNullish = false := rfl
  have hstring' : (Value.string (h.display a)).isObject = false := rfl
  simp [looseEquals, toPrimitive, ha, hb, hb', hnullish, hstring, hstring']

/-- What is equal without conversions is equal with them. -/
theorem looseEquals_of_strictEquals (hstrict : a.strictEquals b = true) :
    h.looseEquals a b = true := by
  cases a <;> cases b <;> first | exact hstrict | cases hstrict

/-- Equality with conversions is symmetric and holds of what is equal without conversions; the nullish
    values equal each other and nothing else, and an object equals a value that is neither nullish nor
    an object if its text does. -/
theorem looseEquals_laws (h : Heap) (a b : Value) :
    h.looseEquals a b = h.looseEquals b a ∧
    (a.strictEquals b = true → h.looseEquals a b = true) ∧
    (a = .undefined ∨ a = .null → (h.looseEquals a b = true ↔ b = .undefined ∨ b = .null)) ∧
    (a.isObject = true → b.isNullish = false → b.isObject = false →
      h.looseEquals a b = h.looseEquals (.string (h.display a)) b) := by
  refine ⟨looseEquals_comm h a b, looseEquals_of_strictEquals, fun ha => ?_, looseEquals_of_isObject⟩
  rw [looseEquals_of_isNullish (Value.isNullish_iff.2 ha), Value.isNullish_iff]

/-- An array that holds itself equals its text and itself, and null equals undefined. -/
theorem looseEquals_laws_cyclic :
    let h : Heap := ⟨#[#[.string (text "x"), .array 0]], #[]⟩
    let a : Value := .array 0
    let t : Value := .string (text "x,")
    (a.isObject = true ∧ t.isNullish = false ∧ t.isObject = false ∧ h.looseEquals a t = true) ∧
    (a.strictEquals a = true ∧ h.looseEquals a a = true) ∧
    (h.looseEquals .null .undefined = true ∧ h.looseEquals .null a = false) := by
  intro h a t
  have hnull := (looseEquals_laws h .null .undefined).2.2.1 (.inr rfl)
  have hother := (looseEquals_laws h .null a).2.2.1 (.inr rfl)
  refine ⟨⟨rfl, rfl, rfl, ?_⟩, ⟨rfl, ?_⟩, hnull.2 (.inl rfl), ?_⟩
  · rw [(looseEquals_laws h a t).2.2.2 rfl rfl rfl]
    decide
  · exact (looseEquals_laws h a a).2.1 rfl
  · rw [← Bool.not_eq_true, hother]
    simp [a]

end Heap

end Pseudocode.Script
