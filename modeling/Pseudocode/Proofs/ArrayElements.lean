import Pseudocode.Proofs.CompoundAssignment

/-!
# Elements of arrays

An array has items and a length. The key of an element is compared by its text, in the same way when the
element is read and when it is written: a text that is the numeral of an index stands for an item, and all
others but the word for the length stand for nothing. So what is written under an index is read there, and
what is written under another name is not kept.

* `Heap.element`                    what the text of a key stands for
* `Heap.IsWritten`                  what a written element changes, and what it leaves
* `Heap.isWritten_of_setProperty`   writing on the heap
* `element_is_written`              the assignment to an element
-/

namespace Pseudocode.Script

open Eval

/-- Different texts stand for different indices. -/
theorem eq_ofNat_of_arrayIndex? {name : Text} {i : Nat} (h : arrayIndex? name = some i) : name = Text.ofNat i := by
  simp only [arrayIndex?, Option.ite_none_right_eq_some, Bool.and_eq_true, decide_eq_true_eq,
    Option.some.injEq] at h
  obtain ⟨⟨⟨-, hname⟩, -⟩, rfl⟩ := h
  exact hname.symm

namespace Heap

variable {h h' : Heap} {ref i j : Nat} {name : Text} {v : Value} {items : Array Value}

/-! ## Items -/

theorem items_modify_self (href : ref < h.arrays.size) (f : Array Value → Array Value) :
    (h.modify ref f).items ref = f (h.items ref) := by
  simp [items, modify, Array.getElem?_modify, Array.getElem?_eq_getElem href]

theorem items_modify_of_ne {other : Nat} (hne : other ≠ ref) (f : Array Value → Array Value) :
    (h.modify ref f).items other = h.items other := by
  simp [items, modify, Array.getElem?_modify, hne.symm]

theorem size_setItem (i : Nat) (v : Value) (items : Array Value) :
    (setItem i v items).size = max items.size (i + 1) := by
  rw [setItem]
  split
  · rw [Array.size_setIfInBounds]
    omega
  · rw [Array.size_push, Array.size_append, Array.size_replicate]
    omega

/-- An item is set, and the others are as they were; beyond the end they are undefined. -/
theorem getElem?_setItem (i j : Nat) (v : Value) (items : Array Value) :
    (setItem i v items)[j]?.getD .undefined = if j = i then v else items[j]?.getD .undefined := by
  rw [setItem]
  split
  · grind
  · grind

/-- What the text of a key stands for. -/
def element (h : Heap) (ref : Nat) (name : Text) : Value :=
  match arrayIndex? name with
  | some i => (h.items ref)[i]?.getD .undefined
  | none => if name = text "length" then .number (Double.ofNat (h.items ref).size) else .undefined

/-- A key is read by its text. -/
theorem getIndex_array (h : Heap) (ref : Nat) (key : Value) :
    h.getIndex (.array ref) key = .ok (h.element ref (h.display key)) := by
  simp only [getIndex, element]
  cases arrayIndex? (h.display key) <;> rfl

theorem getMember_length (h : Heap) (ref : Nat) :
    h.getMember (.array ref) (text "length") = .ok (.number (Double.ofNat (h.items ref).size)) := rfl

/-! ## Writing -/

/-- The length of an array after something has been written under a name. -/
def lengthAfter (name : Text) (length : Nat) : Nat :=
  match arrayIndex? name with
  | some i => max length (i + 1)
  | none => length

/-- `IsWritten h h' ref name v`: in the heap `h'`, the value `v` has been put under a name into an array of the
    heap `h`. Keys are values; they are told apart by their texts. -/
structure IsWritten (h h' : Heap) (ref : Nat) (name : Text) (v : Value) : Prop where
  /-- The value is read under the name of an index. An array keeps nothing under another name. -/
  same (key : Value) (hkey : h'.display key = name) :
    h'.getIndex (.array ref) key = .ok (if (arrayIndex? name).isSome then v else .undefined)
  others (key : Value) (hkey : h'.display key ≠ name) (hlength : h'.display key ≠ text "length") :
    h'.getIndex (.array ref) key = h.getIndex (.array ref) (.string (h'.display key))
  gap (key : Value) {i j : Nat} (hname : arrayIndex? name = some i)
    (hkey : arrayIndex? (h'.display key) = some j) (hend : (h.items ref).size ≤ j) (hgap : j < i) :
    h'.getIndex (.array ref) key = .ok .undefined
  length : h'.getMember (.array ref) (text "length") =
    .ok (.number (Double.ofNat (lengthAfter name (h.items ref).size)))
  /-- What is written under no index is not written at all. -/
  ignored (hname : arrayIndex? name = none) : h' = h
  elsewhere (other : Nat) (hother : other ≠ ref) : h'.items other = h.items other

/-- Everything that a write to an array can do that is not refused. -/
theorem setProperty_array_cases (hname : name ≠ text "length")
    (hdone : h.setProperty (.array ref) name v = .ok () h') :
    (arrayIndex? name = none ∧ h' = h) ∨
    ∃ i, arrayIndex? name = some i ∧ i < maxArrayLength ∧ h' = h.modify ref (setItem i v) := by
  simp only [setProperty, if_neg hname] at hdone
  split at hdone
  · next hnone =>
    cases hdone
    exact .inl ⟨hnone, rfl⟩
  · next i hindex =>
    split at hdone
    · cases hdone
    · next hbound =>
      cases hdone
      exact .inr ⟨i, hindex, Nat.lt_of_not_le hbound, rfl⟩

/-- A write that is not refused. -/
theorem isWritten_of_setProperty (href : ref < h.arrays.size) (hname : name ≠ text "length")
    (hdone : h.setProperty (.array ref) name v = .ok () h') : IsWritten h h' ref name v := by
  obtain ⟨hnone, rfl⟩ | ⟨i, hindex, -, rfl⟩ := setProperty_array_cases hname hdone
  · -- nothing has happened
    refine ⟨fun key hkey => ?_, fun key _ _ => ?_, fun key i j hsome => ?_, ?_, fun _ => rfl, fun _ _ => rfl⟩
    · rw [getIndex_array, hkey, element, hnone]
      simp [hname]
    · rw [getIndex_array, getIndex_array]
      rfl
    · rw [hnone] at hsome
      cases hsome
    · rw [getMember_length, lengthAfter, hnone]
  · -- an item is set
    have hitems : (h.modify ref (setItem i v)).items ref = setItem i v (h.items ref) :=
      items_modify_self href _
    refine ⟨fun key hkey => ?_, fun key hkey hlength => ?_, fun key i' j hname' hkey hend hgap => ?_, ?_,
      fun hnone => ?_, fun other hother => items_modify_of_ne hother _⟩
    · rw [getIndex_array, hkey, element, hindex, hitems]
      simp [getElem?_setItem]
    · rw [getIndex_array, getIndex_array]
      generalize hkeyText : (h.modify ref (setItem i v)).display key = t at hkey hlength
      rw [show h.display (.string t) = t from rfl, element, element]
      cases ht : arrayIndex? t with
      | none => simp [hlength]
      | some j =>
        -- another text is the numeral of another index
        have hne : j ≠ i := by
          rintro rfl
          exact hkey ((eq_ofNat_of_arrayIndex? ht).trans (eq_ofNat_of_arrayIndex? hindex).symm)
        simp [hitems, getElem?_setItem, hne]
    · rw [hindex] at hname'
      cases hname'
      rw [getIndex_array, element, hkey, hitems]
      simp [getElem?_setItem, Nat.ne_of_lt hgap, Array.getElem?_eq_none hend]
    · rw [getMember_length, hitems, size_setItem, lengthAfter, hindex]
    · rw [hindex] at hnone
      cases hnone

end Heap

/-! ## Assignments -/

/-- The value comes first, then the array and the key; the element is written last. -/
theorem evaluate_assign_index (n : Nat) (scope : Scope) (place target : Position)
    (object key value : Expression) :
    evaluate (n + 2) scope (.assign place .plain (.index target object key) value) = (do
      let v ← evaluate (n + 1) scope value
      let found ← evaluate n scope object
      let name ← elementName n scope key
      onHeap target fun h => h.setProperty found name v
      return v) := by
  simp only [evaluate, AssignmentOperator.binary?, store, elementName, bind_assoc]

variable {m m₁ m₂ m₃ m' : Machine} {ref : Nat} {k v v' : Value}

/-- An assignment to the element of an array that is not refused changes nothing but this element. The value
    is read under every key with the same text if the text is the numeral of an index; otherwise nothing is
    written. Under all other keys is read what was read before. -/
theorem element_is_written (n : Nat) (scope : Scope) (place target : Position)
    {object key value : Expression} (hvalue : evaluate (n + 1) scope value m = .ok v m₁)
    (hobject : evaluate n scope object m₁ = .ok (.array ref) m₂) (hkey : evaluate n scope key m₂ = .ok k m₃)
    (href : ref < m₃.heap.arrays.size) (hname : m₃.heap.display k ≠ text "length")
    (hdone : evaluate (n + 2) scope (.assign place .plain (.index target object key) value) m = .ok v' m') :
    v' = v ∧ m' = { m₃ with heap := m'.heap } ∧
      Heap.IsWritten m₃.heap m'.heap ref (m₃.heap.display k) v := by
  -- the value first, then array and key, and the write last
  rw [evaluate_assign_index] at hdone
  simp only [Bind.bind, EStateM.bind, elementName, hvalue, hobject, hkey, fromHeap, onHeap] at hdone
  cases hset : m₃.heap.setProperty (.array ref) (m₃.heap.display k) v with
  | ok _ h =>
    rw [hset] at hdone
    cases hdone
    exact ⟨rfl, rfl, Heap.isWritten_of_setProperty href hname hset⟩
  | error why h =>
    rw [hset] at hdone
    cases why <;> cases hdone

/-- A machine with one array, of one item, and a name for it. -/
def oneArray : Machine :=
  { Machine.start (.start 1000 .cumulative) 5 [] none with
    frames := #[[(text "a", ⟨.array 0, true⟩)]]
    heap := ⟨#[#[.bool false]], #[]⟩ }

/-- The text of the key is the numeral of an index behind the end. -/
theorem element_is_written_behind :
    evaluate 2 [0] (.bool ⟨1, 10⟩ true) oneArray = .ok (.bool true) oneArray ∧
    evaluate 1 [0] (.identifier ⟨1, 1⟩ (text "a")) oneArray = .ok (.array 0) oneArray ∧
    evaluate 1 [0] (.string ⟨1, 3⟩ (text "3")) oneArray = .ok (.string (text "3")) oneArray ∧
    0 < oneArray.heap.arrays.size ∧ oneArray.heap.display (.string (text "3")) ≠ text "length" ∧
    ∃ m', evaluate 3 [0] (.assign ⟨1, 1⟩ .plain (.index ⟨1, 2⟩ (.identifier ⟨1, 1⟩ (text "a"))
        (.string ⟨1, 3⟩ (text "3"))) (.bool ⟨1, 10⟩ true)) oneArray = .ok (.bool true) m' ∧
      Heap.IsWritten oneArray.heap m'.heap 0 (text "3") (.bool true) := by
  have hvalue : evaluate 2 [0] (.bool ⟨1, 10⟩ true) oneArray = .ok (.bool true) oneArray := rfl
  have hobject : evaluate 1 [0] (.identifier ⟨1, 1⟩ (text "a")) oneArray = .ok (.array 0) oneArray := rfl
  have hkey : evaluate 1 [0] (.string ⟨1, 3⟩ (text "3")) oneArray = .ok (.string (text "3")) oneArray := rfl
  have hname : oneArray.heap.display (.string (text "3")) ≠ text "length" := by decide
  obtain ⟨m', hdone⟩ : ∃ m', evaluate 3 [0] (.assign ⟨1, 1⟩ .plain (.index ⟨1, 2⟩ (.identifier ⟨1, 1⟩ (text "a"))
      (.string ⟨1, 3⟩ (text "3"))) (.bool ⟨1, 10⟩ true)) oneArray = .ok (.bool true) m' := ⟨_, rfl⟩
  exact ⟨hvalue, hobject, hkey, by decide, hname, m', hdone,
    (element_is_written 1 [0] ⟨1, 1⟩ ⟨1, 2⟩ hvalue hobject hkey (by decide) hname hdone).2.2⟩

/-- An array keeps nothing under a name that is not the numeral of an index: the assignment ends without an
    error, and what it has put there is not read again. -/
theorem element_is_lost :
    ∃ m', evaluate 3 [0] (.assign ⟨1, 1⟩ .plain (.index ⟨1, 2⟩ (.identifier ⟨1, 1⟩ (text "a"))
        (.string ⟨1, 3⟩ (text "x"))) (.bool ⟨1, 10⟩ true)) oneArray = .ok (.bool true) m' ∧
      m'.heap.getIndex (.array 0) (.string (text "x")) = .ok .undefined ∧
      m'.heap.getIndex (.array 0) (.string (text "x")) ≠ .ok (.bool true) :=
  ⟨_, rfl, rfl, nofun⟩

end Pseudocode.Script
