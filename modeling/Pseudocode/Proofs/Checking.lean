import Pseudocode.Proofs.Written

/-!
# Checks of what is written

A program is the checked form of the sentences of a text. What holds of the expressions that phrases
become, and of the positions of places, holds of the whole program; and what holds of the faults at
places holds of any fault.

* `Settles`                  how a check may end
* `IsCarried`                what the checks of phrases and places guarantee
* `Program.parse_everywhere` what holds of a program, or of the fault of one
-/

namespace Pseudocode.Script

/-! ## Ends of checks -/

/-- The check finds a value with one property, or a fault with another. -/
def Settles {α : Type} (F : Program.Fault → Prop) (P : α → Prop) : Checked α → Prop
  | .ok a => P a
  | .error fault => F fault

section

variable {α β : Type} {F : Program.Fault → Prop} {P P' : α → Prop} {R : β → Prop} {r : Checked α}

theorem Settles.mono (h : Settles F P r) (hPP' : ∀ a, P a → P' a) : Settles F P' r := by
  cases r with
  | ok a => exact hPP' a h
  | error fault => exact h

theorem Settles.bind {f : α → Checked β} (h : Settles F P r) (hf : ∀ a, P a → Settles F R (f a)) :
    Settles F R (r >>= f) := by
  cases r with
  | ok a => exact hf a h
  | error fault => exact h

theorem settles_pure {a : α} (ha : P a) : Settles F P (pure a) := ha

end

/-! ## Statements -/

/-- What the checks of phrases guarantee, and what the positions of places have in common. -/
structure IsCarried (index : LineIndex) (Q : Nat → Prop) (F : Program.Fault → Prop)
    (E : Expression → Prop) (P : Position → Prop) : Prop where
  phrase : ∀ p : Phrase, p.IsWritten Q → ∀ entered ≤ Level.assignment,
    Settles F (fun found => E found.1) (p.check index entered 0)
  place : ∀ offset, Q offset → P (index.position offset)
  fault : ∀ offset cause, Q offset → F ⟨index.position offset, cause⟩

namespace IsCarried

variable {index : LineIndex} {Q : Nat → Prop} {F : Program.Fault → Prop} {E : Expression → Prop}
  {P : Position → Prop} {N : Text → Prop} (h : IsCarried index Q F E P)
include h

theorem checkWhole {p : Phrase} (hp : p.IsWritten Q) : Settles F E (p.checkWhole index) :=
  (h.phrase p hp 0 (Nat.zero_le _)).bind fun _ hfound => settles_pure hfound

theorem checkOptional {p : Option Phrase} (hp : ∀ q ∈ p, q.IsWritten Q) :
    Settles F (fun found => ∀ e ∈ found, E e) (Phrase.checkOptional index p) := by
  cases p with
  | none => exact settles_pure (by simp)
  | some p =>
    refine (h.checkWhole (hp p rfl)).bind fun e he => settles_pure ?_
    simpa using he

theorem add {offset : Nat} (hoffset : Q offset) (name : Text) (kind : BindingKind)
    (declared : Declared) : Settles F (fun _ => True) (declared.add index offset name kind) := by
  unfold Declared.add
  split
  · trivial
  · split
    · exact h.fault _ _ hoffset
    · trivial

theorem checkDeclarators {ds : List (Declarator Phrase Nat)}
    (hds : ∀ d ∈ ds, d.Everywhere (Phrase.IsWritten Q) Q) (kind : BindingKind)
    (declared : Declared) :
    Settles F (fun found => ∀ d ∈ found.1, d.Everywhere E P)
      (Declarator.check index kind declared ds) := by
  induction ds generalizing declared with
  | nil => exact settles_pure (by simp)
  | cons d ds ih =>
    obtain ⟨⟨hplace, hvalue⟩, hrest⟩ := List.forall_mem_cons.1 hds
    -- what comes after the value is the same, whether there is a value or not
    have hlast (value : Option Expression) (hvalue : ∀ e ∈ value, E e) (declared : Declared) :
        Settles F (fun found => ∀ d ∈ found.1, d.Everywhere E P) (do
          let found ← Declarator.check index kind declared ds
          return (⟨index.position d.place, d.name, value⟩ :: found.1, found.2)) :=
      (ih hrest declared).bind fun found hfound => settles_pure
        (List.forall_mem_cons.2 ⟨⟨h.place _ hplace, hvalue⟩, hfound⟩)
    rw [Declarator.check]
    refine (h.add hplace d.name kind declared).bind fun declared _ => ?_
    cases hd : d.value with
    | none =>
      dsimp only
      split
      · exact h.fault _ _ hplace
      · exact hlast none (by simp) declared
    | some p =>
      refine (h.phrase p (hvalue p hd) _ (Nat.le_refl _)).bind fun found hfound => ?_
      exact hlast (some found.1) (by simpa using hfound) declared

theorem checkLoopStart {start : Option (LoopStart Phrase Nat)}
    (hstart : ∀ s ∈ start, s.Everywhere (Phrase.IsWritten Q) Q) :
    Settles F (fun found => ∀ s ∈ found.1, s.Everywhere E P) (LoopStart.check index start) := by
  cases start with
  | none => exact settles_pure (by simp)
  | some start =>
    have hstart := hstart start rfl
    cases start with
    | expression p =>
      refine (h.checkWhole hstart).bind fun e he => settles_pure ?_
      rintro _ ⟨⟩
      exact he
    | declaration kind ds =>
      refine (h.checkDeclarators hstart kind []).bind fun found hfound => settles_pure ?_
      rintro _ ⟨⟩
      exact hfound

omit h in
/-- What is checked one by one is checked in a block. -/
private theorem checkAll_of_forall {ss : List Sentence} {around : Surroundings}
    (hss : ∀ s ∈ ss, ∀ declared,
      Settles F (fun found => found.1.Everywhere E P P N) (s.check around declared))
    (declared : Declared) :
    Settles F (fun found => ∀ c ∈ found.1, c.Everywhere E P P N)
      (Statement.checkAll around declared ss) := by
  induction ss generalizing declared with
  | nil => exact settles_pure (by simp)
  | cons s ss ih =>
    obtain ⟨hs, hrest⟩ := List.forall_mem_cons.1 hss
    rw [Statement.checkAll]
    refine (hs declared).bind fun c hc => (ih hrest c.2).bind fun cs hcs => settles_pure ?_
    exact List.forall_mem_cons.2 ⟨hc, hcs⟩

theorem check {s : Sentence} (hs : Sentence.IsWritten Q N s) (around : Surroundings)
    (hindex : around.index = index) (declared : Declared) :
    Settles F (fun found => found.1.Everywhere E P P N) (s.check around declared) := by
  -- along what was written; the names that are declared so far change on the way
  induction hs generalizing around declared with
  | expression he =>
    rw [Statement.check, hindex]
    exact (h.checkWhole he).bind fun e he => settles_pure (.expression he)
  | declaration hds =>
    rw [Statement.check, hindex]
    exact (h.checkDeclarators hds _ declared).bind fun found hfound =>
      settles_pure (.declaration hfound)
  | function hplace hnamePlace hname _ ih =>
    rw [Statement.check, hindex]
    refine (h.add hnamePlace _ _ declared).bind fun declared _ => ?_
    have hbody := fun s hs declared => ih s hs
      { around with index, inLoop := false, inFunction := true } rfl declared
    refine (checkAll_of_forall hbody _).bind fun body hbody => settles_pure ?_
    exact .function (h.place _ hplace) (h.place _ hnamePlace) hname hbody
  | returning hplace hvalue =>
    rw [Statement.check, hindex]
    split
    · exact (h.checkOptional hvalue).bind fun value hvalue =>
        settles_pure (.returning (h.place _ hplace) hvalue)
    · exact h.fault _ _ hplace
  | @branch test yes no htest _ _ ihyes ihno =>
    rw [Statement.check, hindex]
    refine (h.checkWhole htest).bind fun test htest => ?_
    refine (ihyes around hindex declared).bind fun yes hyes => ?_
    cases no with
    | none => exact settles_pure (.branch htest hyes (by simp))
    | some no =>
      refine (ihno no rfl around hindex yes.2).bind fun no hno => settles_pure ?_
      exact .branch htest hyes (by simpa using hno)
  | whileLoop htest _ ih =>
    rw [Statement.check, hindex]
    refine (h.checkWhole htest).bind fun test htest => ?_
    refine (ih { around with index, inLoop := true } rfl declared).bind fun body hbody => ?_
    exact settles_pure (.whileLoop htest hbody)
  | forLoop hplace hstart htest hupdate _ ih =>
    rw [Statement.check, hindex]
    refine (h.checkLoopStart hstart).bind fun start hstart => ?_
    refine (h.checkOptional htest).bind fun test htest => ?_
    refine (h.checkOptional hupdate).bind fun update hupdate => ?_
    refine (ih { around with index, inLoop := true } rfl start.2).bind fun body hbody => ?_
    exact settles_pure (.forLoop (h.place _ hplace) hstart htest hupdate hbody)
  | block _ ih =>
    rw [Statement.check]
    refine (checkAll_of_forall (fun s hs => ih s hs around hindex) []).bind fun body hbody => ?_
    exact settles_pure (.block hbody)
  | breaking hplace =>
    rw [Statement.check, hindex]
    split
    · exact settles_pure (.breaking (h.place _ hplace))
    · exact h.fault _ _ hplace
  | continuing hplace =>
    rw [Statement.check, hindex]
    split
    · exact settles_pure (.continuing (h.place _ hplace))
    · exact h.fault _ _ hplace
  | empty => exact settles_pure .empty

theorem checkAll {ss : List Sentence} (hss : ∀ s ∈ ss, Sentence.IsWritten Q N s)
    (around : Surroundings) (hindex : around.index = index) (declared : Declared) :
    Settles F (fun found => ∀ c ∈ found.1, c.Everywhere E P P N)
      (Statement.checkAll around declared ss) :=
  checkAll_of_forall (fun s hs => h.check (hss s hs) around hindex) declared

end IsCarried

/-- What the checks guarantee holds everywhere in a program. -/
theorem Program.parse_everywhere {I : Cursor → Prop} {Q : Nat → Prop} {N : Text → Prop}
    {F : Program.Fault → Prop} {E : Expression → Prop} {P : Position → Prop} {t : Text}
    {program : Program} (hI : Reader.Surveys I Q) (hN : Grammar.Names N)
    (hstart : I (Cursor.ofText t)) (h : IsCarried (LineIndex.ofText t) Q F E P)
    (hparse : Program.parse t = .ok program) : ∀ c ∈ program, c.Everywhere E P P N := by
  obtain ⟨ss, declared, hread, hcheck⟩ := Program.exists_of_parse hparse
  have hsettles := h.checkAll (read_isWritten hI hN hstart hread)
    ⟨LineIndex.ofText t, false, false⟩ rfl []
  rw [hcheck] at hsettles
  exact hsettles

end Pseudocode.Script
