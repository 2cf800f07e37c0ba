import Mathlib.Data.List.Chain
import Mathlib.Data.Nat.Find
import Pseudocode.Script.Value

/-!
# The texts of arrays

An array can be shared and can hold itself, but it always has a text. While its items are rendered
it is open; open arrays are empty, and after its text an array is no longer open. So an array has the
same text wherever it stands beside others, and what holds itself is cut off. The text of an array that
does not hold itself is made from the texts of its items.

* `Heap.render_eq_some`       an array has a text, and the same arrays are open after it
* `Heap.renderWithin_eq`      the text of an array that may be opened, by its items
* `Heap.joins_iff`            arrays that do not nest too deep are joined item by item
* `Heap.rendered_once`        what the text of an array is, shared and cyclic ones included
-/

namespace Pseudocode.Script.Heap

variable {h : Heap}

/-- The text of an item, with the texts of arrays given. -/
def itemText (h : Heap) (arrayText : Nat → Text) : Value → Text
  | .undefined | .null => []
  | .array ref => arrayText ref
  | other => h.plainText other

/-! ## Every array has a text -/

/-- The items add their texts if every array has a text and leaves open what is open. -/
theorem renderItems_eq_some {render : Nat → List Nat → Option (Text × List Nat)}
    {arrayText : Nat → Text} {opened : List Nat}
    (hrender : ∀ ref, render ref opened = some (arrayText ref, opened)) (items : List Value)
    (before : List Text) :
    h.renderItems render items before opened =
      some (before.reverse ++ items.map (h.itemText arrayText), opened) := by
  induction items generalizing before with
  | nil => simp [renderItems]
  | cons item items ih =>
    cases item <;> simp [renderItems, itemText, ih, hrender]

/-- An array that is open already, or inside too many open ones, is empty. -/
theorem render_of_closed {opened : List Nat} {ref : Nat}
    (hclosed : maxRenderDepth ≤ opened.length ∨ ref ∈ opened) (fuel : Nat) (separator : Text) :
    h.render (fuel + 1) separator ref opened = some ([], opened) := by
  have hcondition : (decide (maxRenderDepth ≤ opened.length) || decide (ref ∈ opened)) = true := by
    simpa using hclosed
  rw [render, if_pos hcondition]

/-- An array that may be opened is made from the texts that its items have while it is open. -/
theorem render_of_open {opened : List Nat} {ref : Nat} {arrayText : Nat → Text} {fuel : Nat}
    (hroom : opened.length < maxRenderDepth) (hnew : ref ∉ opened)
    (hrender : ∀ inner, h.render fuel [','] inner (ref :: opened) =
      some (arrayText inner, ref :: opened)) (separator : Text) :
    h.render (fuel + 1) separator ref opened =
      some (Text.join separator ((h.items ref).toList.map (h.itemText arrayText)), opened) := by
  have hcondition : ¬ (decide (maxRenderDepth ≤ opened.length) || decide (ref ∈ opened)) = true := by
    simpa using ⟨hroom, hnew⟩
  rw [render, if_neg hcondition, renderItems_eq_some hrender]
  simp

/-- The fuel is enough if there is some for every array that may still be opened. -/
theorem exists_render (h : Heap) (opened : List Nat) (separator : Text) (ref : Nat) :
    ∃ t, ∀ fuel, maxRenderDepth ≤ fuel + opened.length →
      h.render (fuel + 1) separator ref opened = some (t, opened) := by
  induction hroom : maxRenderDepth - opened.length generalizing opened separator ref with
  | zero => exact ⟨[], fun fuel _ => render_of_closed (.inl (by omega)) fuel separator⟩
  | succ room ih =>
    by_cases hopened : ref ∈ opened
    · exact ⟨[], fun fuel _ => render_of_closed (.inr hopened) fuel separator⟩
    · have hinner (inner : Nat) := ih (ref :: opened) [','] inner (by simp; omega)
      choose arrayText harray using hinner
      refine ⟨Text.join separator ((h.items ref).toList.map (h.itemText arrayText)),
        fun fuel hfuel => ?_⟩
      obtain ⟨fuel, rfl⟩ : ∃ n, fuel = n + 1 := Nat.exists_eq_succ_of_ne_zero (by omega)
      exact render_of_open (by omega) hopened
        (fun inner => harray inner fuel (by simp; omega)) separator

/-- An array has a text, however much fuel there is, and the same arrays are open after it. -/
theorem render_eq_some {fuel : Nat} {opened : List Nat}
    (hfuel : maxRenderDepth ≤ fuel + opened.length) (separator : Text) (ref : Nat) :
    h.render (fuel + 1) separator ref opened =
      some (h.renderWithin opened separator ref, opened) := by
  obtain ⟨t, ht⟩ := h.exists_render opened separator ref
  rw [ht fuel hfuel, renderWithin, ht maxRenderDepth (Nat.le_add_right _ _)]
  rfl

/-- An array inside itself is empty. -/
theorem renderWithin_of_mem {opened : List Nat} {ref : Nat} (hmem : ref ∈ opened)
    (separator : Text) : h.renderWithin opened separator ref = [] := by
  rw [renderWithin, render_of_closed (.inr hmem)]
  rfl

/-- The text of an array that may be opened. Each of its items is rendered with the same arrays open,
    whatever stands before it. -/
theorem renderWithin_eq {opened : List Nat} {ref : Nat} (hroom : opened.length < maxRenderDepth)
    (hnew : ref ∉ opened) (separator : Text) :
    h.renderWithin opened separator ref = Text.join separator
      ((h.items ref).toList.map (h.itemText (h.renderWithin (ref :: opened) [',']))) := by
  have hinner (inner : Nat) : h.render maxRenderDepth [','] inner (ref :: opened) =
      some (h.renderWithin (ref :: opened) [','] inner, ref :: opened) :=
    render_eq_some (by simp [maxRenderDepth]; omega) _ _
  rw [renderWithin, render_of_open hroom hnew hinner]
  rfl

/-! ## Arrays that do not hold themselves -/

/-- An array's text is made from the texts of its items: nullish items are empty, and the items of
    arrays are joined by commas. -/
inductive Joins (h : Heap) : (separator : Text) → (ref : Nat) → Text → Prop
  | join (separator : Text) (ref : Nat) (arrayText : Nat → Text)
      (harrays : ∀ inner, .array inner ∈ (h.items ref).toList →
        Joins h [','] inner (arrayText inner)) :
      Joins h separator ref
        (Text.join separator ((h.items ref).toList.map (h.itemText arrayText)))

/-- No chain of arrays, each an item of the one before, that begins with `ref` has more than `depth`
    of them. So none of them is inside itself. -/
def NestsWithin (h : Heap) (depth ref : Nat) : Prop :=
  ∀ inside : List Nat,
    (ref :: inside).IsChain (fun outer inner => .array inner ∈ (h.items outer).toList) →
      (ref :: inside).length ≤ depth

theorem NestsWithin.mono {depth depth' ref : Nat} (hnests : h.NestsWithin depth ref)
    (hle : depth ≤ depth') : h.NestsWithin depth' ref :=
  fun inside hchain => Nat.le_trans (hnests inside hchain) hle

theorem NestsWithin.pos {depth ref : Nat} (hnests : h.NestsWithin depth ref) : 0 < depth :=
  hnests [] (.singleton ref)

theorem nestsWithin_succ {depth ref : Nat} : h.NestsWithin (depth + 1) ref ↔
    ∀ inner, .array inner ∈ (h.items ref).toList → h.NestsWithin depth inner := by
  constructor
  · intro hnests inner hmem inside hchain
    exact Nat.le_of_succ_le_succ (hnests (inner :: inside) (.cons_cons hmem hchain))
  · intro hitems inside hchain
    cases inside with
    | nil => simp
    | cons inner inside =>
      rw [List.isChain_cons_cons] at hchain
      exact Nat.succ_le_succ (hitems inner hchain.1 inside hchain.2)

theorem itemText_congr {f g : Nat → Text} {items : List Value}
    (hsame : ∀ inner, .array inner ∈ items → f inner = g inner) :
    items.map (h.itemText f) = items.map (h.itemText g) := by
  refine List.map_congr_left fun item hitem => ?_
  cases item with
  | array inner => exact hsame inner hitem
  | _ => rfl

theorem Joins.unique {separator : Text} {ref : Nat} {t t' : Text} (hjoins : h.Joins separator ref t)
    (hjoins' : h.Joins separator ref t') : t = t' := by
  induction hjoins generalizing t' with
  | join separator ref arrayText _ ih =>
    cases hjoins' with
    | join _ _ arrayText' harrays' =>
      rw [itemText_congr fun inner hmem => ih inner hmem (harrays' inner hmem)]

/-- The arrays around an array nest deeper than it, so it is none of them. -/
theorem joins_renderWithin {depth ref : Nat} {opened : List Nat} (hnests : h.NestsWithin depth ref)
    (hopened : ∀ outer ∈ opened, ¬ h.NestsWithin depth outer)
    (hroom : opened.length + depth ≤ maxRenderDepth) (separator : Text) :
    h.Joins separator ref (h.renderWithin opened separator ref) := by
  induction depth using Nat.strongRecOn generalizing ref opened separator with
  | ind depth ih =>
    -- the items nest within one less than the least depth of `ref`, and `ref` does not
    have hex : ∃ d, h.NestsWithin d ref := ⟨depth, hnests⟩
    classical
    obtain ⟨least, hleast⟩ : ∃ d, Nat.find hex = d + 1 :=
      Nat.exists_eq_succ_of_ne_zero (Nat.pos_iff_ne_zero.1 (Nat.find_spec hex).pos)
    have hfits : h.NestsWithin (least + 1) ref := hleast ▸ Nat.find_spec hex
    have htight : ¬ h.NestsWithin least ref := Nat.find_min hex (by omega)
    have hle : least + 1 ≤ depth := hleast ▸ Nat.find_min' hex hnests
    have hnew : ref ∉ opened := fun hmem => hopened ref hmem hnests
    rw [renderWithin_eq (by omega) hnew]
    refine .join separator ref _ fun inner hmem => ?_
    refine ih least (by omega) (nestsWithin_succ.1 hfits inner hmem) (fun outer houter => ?_)
      (by simp; omega) _
    rcases List.mem_cons.1 houter with rfl | houter
    · exact htight
    · exact fun hnests => hopened outer houter (hnests.mono (by omega))

/-- Arrays that do not nest too deep are joined item by item. -/
theorem joins_iff {ref : Nat} (hnests : h.NestsWithin maxRenderDepth ref) (separator t : Text) :
    h.Joins separator ref t ↔ t = h.join separator ref := by
  have hjoins : h.Joins separator ref (h.join separator ref) :=
    joins_renderWithin hnests (by simp) (by simp) separator
  constructor
  · exact fun hjoins' => hjoins'.unique hjoins
  · rintro rfl
    exact hjoins

/-- Every array has a text, whatever it holds and whatever is open, and the same arrays are open after
    it. An array inside itself is empty; every other one that may be opened is made from its items,
    each rendered with just this array opened in addition. Unless arrays nest too deep or hold
    themselves, nothing else is left out. -/
theorem rendered_once (h : Heap) (separator : Text) (ref : Nat) :
    (∀ opened fuel, maxRenderDepth ≤ fuel + opened.length →
      h.render (fuel + 1) separator ref opened =
        some (h.renderWithin opened separator ref, opened)) ∧
    (∀ opened, ref ∈ opened → h.renderWithin opened separator ref = []) ∧
    (∀ opened, ref ∉ opened → opened.length < maxRenderDepth →
      h.renderWithin opened separator ref = Text.join separator
        ((h.items ref).toList.map (h.itemText (h.renderWithin (ref :: opened) [','])))) ∧
    (h.NestsWithin maxRenderDepth ref →
      ∀ t, h.Joins separator ref t ↔ t = h.join separator ref) :=
  ⟨fun _ _ hfuel => render_eq_some hfuel separator ref,
    fun _ hmem => renderWithin_of_mem hmem separator,
    fun _ hnew hroom => renderWithin_eq hroom hnew separator,
    fun hnests => joins_iff hnests separator⟩

/-- An array that holds itself is cut off, and one that is held twice is rendered twice. -/
theorem rendered_once_held :
    let h : Heap := ⟨#[#[.string (text "x"), .array 0], #[.string (text "y")], #[.array 1, .array 1]],
      #[]⟩
    h.render (maxRenderDepth + 1) [','] 0 [] = some (text "x,", []) ∧
    h.renderWithin [0] [','] 0 = [] ∧
    h.renderWithin [0] [','] 1 = text "y" ∧
    (h.NestsWithin maxRenderDepth 2 ∧ h.Joins [','] 2 (text "y,y")) := by
  intro h
  have hsingle : h.NestsWithin 1 1 := nestsWithin_succ.2 fun inner hmem => by simp [h, items] at hmem
  have hpair : h.NestsWithin 2 2 := nestsWithin_succ.2 fun inner hmem => by
    have hinner : inner = 1 := by simpa [h, items] using hmem
    exact hinner ▸ hsingle
  have hnests : h.NestsWithin maxRenderDepth 2 := hpair.mono (by decide)
  refine ⟨?_, (rendered_once h [','] 0).2.1 [0] (by decide), ?_, hnests, ?_⟩
  · have htext : h.renderWithin [] [','] 0 = text "x," := by decide
    rw [(rendered_once h [','] 0).1 [] maxRenderDepth (Nat.le_refl _), htext]
  · rw [(rendered_once h [','] 1).2.2.1 [0] (by decide) (by decide)]
    decide
  · exact ((rendered_once h [','] 2).2.2.2 hnests _).2 (by decide)

end Pseudocode.Script.Heap
