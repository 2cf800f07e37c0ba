import Mathlib.Data.List.Basic
import Pseudocode.Script.Scope

/-!
# Frames while a script runs

What one statement may do to the frames of a run. Constants stay what they are. New names appear in
the innermost frame of the scope that the statement runs in and in new frames, but for variables that
are created in the outermost frame.

* `Frames.HasConstant`       a name is bound to a constant
* `Frames.KeepsConstants`    constants stay what they are
* `Frames.IsScope`           a chain of frames that ends with the outermost one
* `Frames.Evolves`           what a statement may do to the frames
* `Frames.Agrees`            what the innermost frame has to do with the declarations of its block
-/

namespace Pseudocode.Script

/-! ## Bindings -/

theorem Frame.lookup_cons (other name : Text) (b : Binding) (f : Frame) :
    List.lookup other ((name, b) :: f) = if other = name then some b else f.lookup other := by
  rw [List.lookup_cons]
  by_cases h : other = name
  · rw [if_pos h, beq_iff_eq.2 h]
  · rw [if_neg h, beq_eq_false_iff_ne.2 h]

theorem Frame.lookup_set (name : Text) (b : Binding) (other : Text) (f : Frame) :
    (Frame.set name b f).lookup other = if other = name then some b else f.lookup other := by
  induction f with
  | nil => rw [Frame.set, Frame.lookup_cons]
  | cons entry rest ih =>
    obtain ⟨first, old⟩ := entry
    rw [Frame.lookup_cons]
    by_cases hfirst : first = name
    · rw [Frame.set, if_pos hfirst, Frame.lookup_cons, hfirst]
      by_cases h : other = name
      · rw [if_pos h, if_pos h]
      · rw [if_neg h, if_neg h, if_neg h]
    · rw [Frame.set, if_neg hfirst, Frame.lookup_cons, ih]
      by_cases h : other = name
      · rw [if_pos h, if_neg (h ▸ Ne.symm hfirst), if_pos h]
      · rw [if_neg h, if_neg h]

namespace Frames

variable {fs fs' fs'' : Frames}

@[simp] theorem frame_push (fs : Frames) (id : Nat) : Frames.frame (fs.push []) id = fs.frame id := by
  simp only [frame, Array.getElem?_push]
  split
  · rename_i h
    rw [h, Array.getElem?_eq_none (Nat.le_refl _)]
    rfl
  · rfl

theorem frame_of_le {id : Nat} (h : fs.size ≤ id) : fs.frame id = [] := by
  rw [frame, Array.getElem?_eq_none h, Option.getD_none]

theorem frame_modify {id : Nat} (hid : id < fs.size) (change : Frame → Frame) (other : Nat) :
    Frames.frame (fs.modify id change) other
      = if other = id then change (fs.frame id) else fs.frame other := by
  simp only [frame, Array.getElem?_modify]
  by_cases h : other = id
  · subst h
    simp [Array.getElem?_eq_getElem hid]
  · rw [if_neg (Ne.symm h), if_neg h]

/-- What a frame binds after a name was bound in it. -/
theorem lookup_modify {id : Nat} (hid : id < fs.size) (name : Text) (b : Binding) (other : Nat)
    (key : Text) : (Frames.frame (fs.modify id (Frame.set name b)) other).lookup key
      = if other = id ∧ key = name then some b else (fs.frame other).lookup key := by
  rw [frame_modify hid]
  by_cases hother : other = id
  · subst hother
    rw [if_pos rfl, Frame.lookup_set]
    by_cases hkey : key = name <;> simp [hkey]
  · rw [if_neg hother, if_neg fun h => hother h.1]

/-- A name is bound to a constant. -/
def HasConstant (fs : Frames) (id : Nat) (name : Text) (b : Binding) : Prop :=
  (fs.frame id).lookup name = some b ∧ b.isMutable = false

/-- A frame has a constant of that name. -/
def IsConstant (fs : Frames) (id : Nat) (name : Text) : Prop := ∃ b, fs.HasConstant id name b

/-- A frame binds a name. -/
def IsBound (fs : Frames) (id : Nat) (name : Text) : Prop := ∃ b, (fs.frame id).lookup name = some b

/-- Constants stay what they are. -/
def KeepsConstants (fs fs' : Frames) : Prop :=
  ∀ id name b, fs.HasConstant id name b → fs'.HasConstant id name b

theorem KeepsConstants.refl (fs : Frames) : fs.KeepsConstants fs := fun _ _ _ => id

theorem KeepsConstants.trans (h : fs.KeepsConstants fs') (h' : fs'.KeepsConstants fs'') :
    fs.KeepsConstants fs'' := fun id name b hb => h' id name b (h id name b hb)

/-! ## Scopes -/

/-- The scope is a chain of frames that ends with the outermost one. -/
structure IsScope (fs : Frames) (scope : Scope) : Prop where
  inside : ∀ id ∈ scope, id < fs.size
  outermost : scope.getLast? = some 0

namespace IsScope

variable {scope : Scope}

theorem mono (h : fs.IsScope scope) (hsize : fs.size ≤ fs'.size) : fs'.IsScope scope :=
  ⟨fun id hid => Nat.lt_of_lt_of_le (h.inside id hid) hsize, h.outermost⟩

theorem ne_nil (h : fs.IsScope scope) : scope ≠ [] := by
  rintro rfl
  cases h.outermost

theorem exists_head (h : fs.IsScope scope) : ∃ id outer, scope = id :: outer ∧ id < fs.size := by
  obtain ⟨id, outer, rfl⟩ := List.exists_cons_of_ne_nil h.ne_nil
  exact ⟨id, outer, rfl, h.inside id List.mem_cons_self⟩

theorem zero_mem (h : fs.IsScope scope) : 0 ∈ scope := List.mem_of_getLast? h.outermost

theorem size_pos (h : fs.IsScope scope) : 0 < fs.size := h.inside 0 h.zero_mem

theorem push (h : fs.IsScope scope) : Frames.IsScope (fs.push []) (fs.size :: scope) where
  inside id hid := by
    rw [Array.size_push]
    rcases List.mem_cons.1 hid with rfl | hid
    · exact Nat.lt_succ_self _
    · exact Nat.lt_succ_of_lt (h.inside id hid)
  outermost := by
    obtain ⟨id, outer, rfl, -⟩ := h.exists_head
    exact h.outermost

end IsScope

/-! ## Evolution -/

/-- What a statement that runs in a scope may do to the frames. If `strict` holds, it makes names
    only in the innermost frame, in new frames, and in the outermost one. -/
structure Evolves (strict : Prop) (scope : Scope) (fs fs' : Frames) : Prop where
  size_le : fs.size ≤ fs'.size
  keeps : fs.KeepsConstants fs'
  constants : ∀ id < fs.size, ∀ name, fs'.IsConstant id name →
    fs.IsConstant id name ∨ scope.head? = some id
  names : strict → ∀ id < fs.size, id ≠ 0 → ∀ name, fs'.IsBound id name →
    fs.IsBound id name ∨ scope.head? = some id

/-- What is known of the innermost frame of a scope: variables of its block are no constants there.
    If `strict` holds, whatever is bound there is a variable of the block, or a name that was
    `declared` before; the outermost block may have any variable. -/
structure Agrees (strict : Prop) (scope : Scope) (isVariable : Text → Prop) (declared : List Text)
    (fs : Frames) : Prop where
  not_constant : ∀ id ∈ scope.head?, ∀ name, isVariable name → ¬fs.IsConstant id name
  accounted : strict → ∀ id ∈ scope.head?, ∀ name, fs.IsBound id name →
    isVariable name ∨ name ∈ declared
  outermost : strict → scope.head? = some 0 → ∀ name, isVariable name

section

variable {strict : Prop} {scope inner : Scope} {isVariable : Text → Prop} {declared declared' : List Text}

theorem Evolves.refl (strict : Prop) (scope : Scope) (fs : Frames) : fs.Evolves strict scope fs :=
  ⟨Nat.le_refl _, .refl fs, fun _ _ _ => .inl, fun _ _ _ _ _ => .inl⟩

theorem Evolves.trans (h : fs.Evolves strict scope fs') (h' : fs'.Evolves strict scope fs'') :
    fs.Evolves strict scope fs'' where
  size_le := Nat.le_trans h.size_le h'.size_le
  keeps := h.keeps.trans h'.keeps
  constants id hid name hname := by
    rcases h'.constants id (Nat.lt_of_lt_of_le hid h.size_le) name hname with hname | hhead
    · exact h.constants id hid name hname
    · exact .inr hhead
  names hstrict id hid hne name hname := by
    rcases h'.names hstrict id (Nat.lt_of_lt_of_le hid h.size_le) hne name hname with hname | hhead
    · exact h.names hstrict id hid hne name hname
    · exact .inr hhead

theorem Agrees.mono (h : fs.Agrees strict scope isVariable declared) (hsub : declared ⊆ declared') :
    fs.Agrees strict scope isVariable declared' :=
  ⟨h.not_constant, fun hstrict id hid name hname =>
    (h.accounted hstrict id hid name hname).imp_right fun hmem => hsub hmem, h.outermost⟩

/-- Without `strict` it does not matter what was declared before. -/
theorem Agrees.of_not_strict (h : fs.Agrees strict scope isVariable declared) (hnot : ¬strict) :
    fs.Agrees strict scope isVariable declared' :=
  ⟨h.not_constant, fun hstrict => absurd hstrict hnot, h.outermost⟩

/-! ### A name is bound -/

section

variable {id : Nat} {name : Text} {b : Binding}

/-- Binding a name that is no constant. -/
theorem evolves_modify (hid : id < fs.size) (hnot : ¬fs.IsConstant id name)
    (hconstant : b.isMutable = true ∨ scope.head? = some id)
    (hname : strict → id = 0 ∨ fs.IsBound id name ∨ scope.head? = some id) :
    fs.Evolves strict scope (fs.modify id (Frame.set name b)) where
  size_le := by simp
  keeps other key old hold := by
    refine ⟨?_, hold.2⟩
    rw [lookup_modify hid, if_neg]
    · exact hold.1
    · rintro ⟨rfl, rfl⟩
      exact hnot ⟨old, hold⟩
  -- a binding becomes constant only if it is declared in the innermost frame
  constants other _ key hkey := by
    obtain ⟨c, hc, himmutable⟩ := hkey
    rw [lookup_modify hid] at hc
    split at hc
    · rename_i hsame
      obtain ⟨rfl, rfl⟩ := hsame
      obtain rfl := Option.some.inj hc
      rcases hconstant with hmutable | hhead
      · rw [hmutable] at himmutable
        cases himmutable
      · exact .inr hhead
    · exact .inl ⟨c, hc, himmutable⟩
  names hstrict other _ hne key hkey := by
    obtain ⟨c, hc⟩ := hkey
    rw [lookup_modify hid] at hc
    split at hc
    · rename_i hsame
      obtain ⟨rfl, rfl⟩ := hsame
      rcases hname hstrict with hzero | hbound
      · exact absurd hzero hne
      · exact hbound
    · exact .inl ⟨c, hc⟩

theorem Agrees.modify (h : fs.Agrees strict scope isVariable declared) (hid : id < fs.size)
    (hconstant : b.isMutable = false → ¬isVariable name)
    (hname : strict → scope.head? = some id → isVariable name ∨ name ∈ declared')
    (hsub : declared ⊆ declared') :
    Frames.Agrees strict scope isVariable declared' (fs.modify id (Frame.set name b)) where
  not_constant other hother key hkey := by
    rintro ⟨c, hc, himmutable⟩
    -- the binding that was written, or one that stood there before
    rw [lookup_modify hid] at hc
    split at hc
    · rename_i hsame
      obtain ⟨rfl, rfl⟩ := hsame
      obtain rfl := Option.some.inj hc
      exact hconstant himmutable hkey
    · exact h.not_constant other hother key hkey ⟨c, hc, himmutable⟩
  accounted hstrict other hother key hkey := by
    obtain ⟨c, hc⟩ := hkey
    rw [lookup_modify hid] at hc
    split at hc
    · rename_i hsame
      obtain ⟨rfl, rfl⟩ := hsame
      exact hname hstrict hother
    · exact (h.accounted hstrict other hother key ⟨c, hc⟩).imp_right fun hmem => hsub hmem
  outermost := h.outermost

end

/-! ### Operations on names -/

variable {name : Text}

/-- A variable of the block is defined. -/
theorem Agrees.define (h : fs.Agrees strict scope isVariable declared) (hs : fs.IsScope scope)
    (hname : isVariable name) (value : Value) :
    fs.Evolves strict scope (fs.define scope name value) ∧
      (fs.define scope name value).Agrees strict scope isVariable declared := by
  obtain ⟨id, outer, rfl, hid⟩ := hs.exists_head
  exact ⟨evolves_modify hid (h.not_constant id rfl name hname) (.inl rfl) fun _ => .inr (.inr rfl),
    h.modify hid (by simp) (fun _ _ => .inl hname) (List.Subset.refl _)⟩

/-- A name is declared that the innermost frame does not have. -/
theorem Agrees.declare (h : fs.Agrees strict scope isVariable declared) (hs : fs.IsScope scope)
    (hname : ¬isVariable name) (hnone : fs.declareFault? name scope = none) (b : Binding) :
    fs.Evolves strict scope (fs.declare scope name b) ∧
      (fs.declare scope name b).Agrees strict scope isVariable (declared ++ [name]) := by
  obtain ⟨id, outer, rfl, hid⟩ := hs.exists_head
  have hlookup : (fs.frame id).lookup name = none := by
    cases hfound : (fs.frame id).lookup name with
    | none => rfl
    | some b => simp [declareFault?, hfound] at hnone
  have hnot : ¬fs.IsConstant id name := by
    rintro ⟨c, hc, -⟩
    rw [hlookup] at hc
    cases hc
  simp only [Frames.declare, hnone, Option.isSome_none, Bool.false_eq_true, if_false, bind]
  exact ⟨evolves_modify hid hnot (.inr rfl) fun _ => .inr (.inr rfl),
    h.modify hid (fun _ => hname) (fun _ _ => .inr (by simp)) (List.subset_append_left _ _)⟩

/-- A name that was not declared before, and is no variable, is not bound yet. -/
theorem Agrees.declareFault?_eq_none (h : fs.Agrees strict scope isVariable declared)
    (hstrict : strict) (hname : ¬isVariable name) (hnew : name ∉ declared) :
    fs.declareFault? name scope = none := by
  cases scope with
  | nil => rfl
  | cons id outer =>
    simp only [declareFault?, ite_eq_right_iff, reduceCtorEq, imp_false]
    intro hbound
    obtain ⟨b, hb⟩ := Option.isSome_iff_exists.1 hbound
    exact (h.accounted hstrict id rfl name ⟨b, hb⟩).elim hname hnew

/-- An assignment changes a binding that is no constant. -/
theorem exists_assign_eq (hnone : fs.assignFault? name scope = none) (value : Value) :
    ∃ id ∈ scope, ∃ old, (fs.frame id).lookup name = some old ∧ old.isMutable = true ∧
      fs.assign name value scope = fs.modify id (Frame.set name ⟨value, true⟩) := by
  induction scope with
  | nil => cases hnone
  | cons id outer ih =>
    cases hlookup : (fs.frame id).lookup name with
    | some old =>
      have hmutable : old.isMutable = true := by
        simpa [assignFault?, binding?, hlookup] using hnone
      exact ⟨id, List.mem_cons_self, old, hlookup, hmutable, by simp [Frames.assign, hlookup, hmutable]⟩
    | none =>
      obtain ⟨found, hfound, old, hold, hmutable, hassign⟩ :=
        ih (by simpa [assignFault?, binding?, hlookup] using hnone)
      exact ⟨found, List.mem_cons_of_mem _ hfound, old, hold, hmutable,
        by simpa [Frames.assign, hlookup] using hassign⟩

theorem Agrees.assign (h : fs.Agrees strict scope isVariable declared) (hs : fs.IsScope scope)
    (hnone : fs.assignFault? name scope = none) (value : Value) :
    fs.Evolves strict scope (fs.assign name value scope) ∧
      (fs.assign name value scope).Agrees strict scope isVariable declared := by
  obtain ⟨id, hmem, old, hold, hmutable, hassign⟩ := exists_assign_eq hnone value
  have hid := hs.inside id hmem
  have hnot : ¬fs.IsConstant id name := by
    rintro ⟨c, hc, himmutable⟩
    rw [hold] at hc
    rw [← Option.some.inj hc, hmutable] at himmutable
    cases himmutable
  rw [hassign]
  exact ⟨evolves_modify hid hnot (.inl rfl) fun _ => .inr (.inl ⟨old, hold⟩),
    h.modify hid (by simp) (fun hstrict hhead => h.accounted hstrict id hhead name ⟨old, hold⟩)
      (List.Subset.refl _)⟩

/-- A name without a binding has none in any frame of the scope. -/
theorem lookup_of_notFound (hnone : fs.assignFault? name scope = some .notFound) :
    ∀ id ∈ scope, (fs.frame id).lookup name = none := by
  induction scope with
  | nil => simp
  | cons id outer ih =>
    cases hlookup : (fs.frame id).lookup name with
    | some old =>
      simp only [assignFault?, binding?, hlookup] at hnone
      split at hnone <;> cases hnone
    | none =>
      exact List.forall_mem_cons.2
        ⟨hlookup, ih (by simpa [assignFault?, binding?, hlookup] using hnone)⟩

/-- A name without a binding becomes a variable of the outermost frame. -/
theorem Agrees.create (h : fs.Agrees strict scope isVariable declared) (hs : fs.IsScope scope)
    (hnone : fs.assignFault? name scope = some .notFound) (value : Value) :
    fs.Evolves strict scope (fs.define [0] name value) ∧
      (fs.define [0] name value).Agrees strict scope isVariable declared := by
  have hlookup := lookup_of_notFound hnone 0 hs.zero_mem
  have hnot : ¬fs.IsConstant 0 name := by
    rintro ⟨c, hc, -⟩
    rw [hlookup] at hc
    cases hc
  exact ⟨evolves_modify hs.size_pos hnot (.inl rfl) fun _ => .inl rfl,
    h.modify hs.size_pos (by simp) (fun hstrict hhead => .inl (h.outermost hstrict hhead name))
      (List.Subset.refl _)⟩

/-! ### A scope is opened -/

/-- Nothing is bound in a new frame. -/
theorem agrees_push (hs : fs.IsScope inner) (isVariable : Text → Prop) :
    Frames.Agrees strict (fs.size :: inner) isVariable [] (fs.push []) where
  not_constant id hid name _ := by
    obtain rfl : fs.size = id := Option.some.inj hid
    rintro ⟨b, hb, -⟩
    rw [frame_push, frame_of_le (Nat.le_refl _)] at hb
    cases hb
  accounted _ id hid name := by
    obtain rfl : fs.size = id := Option.some.inj hid
    rintro ⟨b, hb⟩
    rw [frame_push, frame_of_le (Nat.le_refl _)] at hb
    cases hb
  outermost _ hzero := absurd (Option.some.inj hzero) (Nat.ne_of_gt hs.size_pos)

/-- What happens in a new scope leaves the frames that there were alone. -/
theorem Evolves.of_push
    (h : Frames.Evolves strict (fs.size :: inner) (fs.push []) fs') (scope : Scope) :
    fs.Evolves strict scope fs' where
  size_le := Nat.le_trans (by simp) h.size_le
  keeps id name b hb := h.keeps id name b (by rwa [HasConstant, frame_push])
  constants id hid name hname := by
    rcases h.constants id (by simp; omega) name hname with hname | hhead
    · exact .inl (by simpa only [IsConstant, HasConstant, frame_push] using hname)
    · exact absurd (Option.some.inj hhead) (Nat.ne_of_gt hid)
  names hstrict id hid hne name hname := by
    rcases h.names hstrict id (by simp; omega) hne name hname with hname | hhead
    · exact .inl (by simpa only [IsBound, frame_push] using hname)
    · exact absurd (Option.some.inj hhead) (Nat.ne_of_gt hid)

theorem Agrees.of_push (hagrees : fs.Agrees strict scope isVariable declared) (hs : fs.IsScope scope)
    (h : Frames.Evolves strict (fs.size :: inner) (fs.push []) fs') :
    fs'.Agrees strict scope isVariable declared where
  not_constant id hid name hname hconstant := by
    have hsize := hs.inside id (List.mem_of_mem_head? hid)
    -- the scope is older than the frame that was pushed, so its bindings were there before
    rcases (h.of_push []).constants id hsize name hconstant with hconstant | hhead
    · exact hagrees.not_constant id hid name hname hconstant
    · cases hhead
  accounted hstrict id hid name hbound := by
    have hsize := hs.inside id (List.mem_of_mem_head? hid)
    by_cases hzero : id = 0
    · subst hzero
      exact .inl (hagrees.outermost hstrict hid name)
    · rcases (h.of_push []).names hstrict id hsize hzero name hbound with hbound | hhead
      · exact hagrees.accounted hstrict id hid name hbound
      · cases hhead
  outermost := hagrees.outermost

end

end Frames

end Pseudocode.Script
