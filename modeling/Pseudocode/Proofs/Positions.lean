import Pseudocode.Proofs.Checking

/-!
# Positions

The index of the lines of a text and a count from its beginning give the same position. Everything
in a program stands at the position of something that is written in its text.

* `LineIndex.position_ofText`     the index gives the position that a count gives
* `Position.line_scan`            the line is one more than the line feeds before
* `Expression.IsSoundAt`           what holds of all positions in an expression
* `isCarried_isSoundAt`            the positions of written places hold in a program
-/

namespace Pseudocode.Script

/-! ## Counting -/

namespace Position

variable {p : Position} {t : Text} {offset : Nat}

/-- Every line feed is the end of a line. -/
theorem line_after (p : Position) (t : Text) : (p.after t).line = p.line + t.count '\n' := by
  induction t generalizing p with
  | nil => rfl
  | cons c r ih =>
    rw [after, List.count_cons, apply_ite Position.line, ih, ih]
    by_cases hc : c = '\n'
    · rw [if_pos hc, hc, beq_self_eq_true, if_pos rfl, Nat.add_right_comm, Nat.add_assoc]
    · rw [if_neg hc, beq_false_of_ne hc]
      rfl

theorem column_after_le (p : Position) (t : Text) :
    (p.after t).column ≤ max p.column 1 + t.length := by
  induction t generalizing p with
  | nil => exact Nat.le_max_left _ _
  | cons c r ih =>
    rw [after, List.length_cons]
    split
    · have := ih ⟨p.line + 1, 1⟩
      simp only at this
      omega
    · have := ih ⟨p.line, p.column + 1⟩
      simp only at this
      omega

theorem line_scan (t : Text) (offset : Nat) :
    (scan t offset).line = (t.take offset).count '\n' + 1 := by
  rw [scan, line_after, Nat.add_comm]

theorem line_scan_le (h : offset ≤ t.length) : (scan t offset).line ≤ t.length + 1 := by
  rw [line_scan]
  have hcount := (t.take offset).count_le_length (a := '\n')
  rw [List.length_take] at hcount
  omega

theorem column_scan_le (h : offset ≤ t.length) : (scan t offset).column ≤ t.length + 1 := by
  have hcolumn := column_after_le ⟨1, 1⟩ (t.take offset)
  rw [List.length_take, Nat.min_eq_left h, Nat.max_self, Nat.add_comm] at hcolumn
  exact Nat.le_trans hcolumn (Nat.succ_le_succ h)

end Position

/-! ## Looking up -/

namespace LineIndex

theorem startsFrom_append (offset : Nat) (s t : Text) :
    startsFrom offset (s ++ t) = startsFrom offset s ++ startsFrom (offset + s.length) t := by
  induction s generalizing offset with
  | nil => rfl
  | cons c s ih =>
    have hlength : offset + (c :: s).length = offset + 1 + s.length := by
      rw [List.length_cons]
      omega
    rw [List.cons_append, startsFrom, startsFrom, ih, hlength]
    split <;> rfl

theorem mem_startsFrom {offset start : Nat} {t : Text} (h : start ∈ startsFrom offset t) :
    offset < start ∧ start ≤ offset + t.length := by
  induction t generalizing offset with
  | nil => cases h
  | cons c r ih =>
    have hlater : start ∈ startsFrom (offset + 1) r → offset < start ∧ start ≤ offset + (r.length + 1) :=
      fun h => by
        have := ih h
        omega
    rw [startsFrom] at h
    rw [List.length_cons]
    split at h
    · rcases List.mem_cons.1 h with rfl | h
      · omega
      · exact hlater h
    · exact hlater h

/-- The search ends where the starts get above the offset. -/
theorem countFrom_eq {starts : Array Nat} {offset low high n : Nat} (hlow : low ≤ n) (hhigh : n ≤ high)
    (hbelow : ∀ i < n, starts[i]?.getD 0 ≤ offset)
    (habove : ∀ i, n ≤ i → i < high → offset < starts[i]?.getD 0) :
    countFrom starts offset low high = n := by
  fun_induction countFrom starts offset low high with
  | case1 low high hlt middle hmiddle ih =>
    refine ih (Nat.lt_of_not_le fun hle => ?_) hhigh habove
    exact absurd hmiddle (Nat.not_le_of_lt (habove middle hle (by omega)))
  | case2 low high hlt middle hmiddle ih =>
    refine ih hlow (Nat.le_of_not_lt fun hlt => hmiddle (hbelow middle hlt)) fun i hi hlt => ?_
    exact habove i hi (by omega)
  | case3 low high hle => omega

/-- The starts that are not above an offset are those of the lines before it. -/
private theorem countFrom_ofText (s r : Text) :
    countFrom (ofText (s ++ r)).starts s.length 0 (ofText (s ++ r)).starts.size
      = (startsFrom 0 s).length + 1 := by
  rw [ofText, startsFrom_append, Nat.zero_add, ← List.cons_append]
  -- the starts up to the offset come first, all others lie behind it
  refine countFrom_eq (Nat.zero_le _) (by simp) (fun i hi => ?_) fun i hi hlt => ?_
  · have hi : i < (0 :: startsFrom 0 s).length := hi
    rw [List.getElem?_toArray, List.getElem?_append_left hi, List.getElem?_eq_getElem hi,
      Option.getD_some]
    rcases List.mem_cons.1 (List.getElem_mem hi) with h | h
    · rw [h]
      exact Nat.zero_le _
    · exact Nat.le_trans (mem_startsFrom h).2 (Nat.le_of_eq (Nat.zero_add _))
  · have hi : (0 :: startsFrom 0 s).length ≤ i := hi
    rw [List.size_toArray, List.length_append] at hlt
    have hlt : i - (0 :: startsFrom 0 s).length < (startsFrom s.length r).length := by omega
    rw [List.getElem?_toArray, List.getElem?_append_right hi, List.getElem?_eq_getElem hlt,
      Option.getD_some]
    exact (mem_startsFrom (List.getElem_mem hlt)).1

/-- The position behind a text, from the start of the line that it goes on with. -/
private theorem after_eq (line first offset : Nat) (hfirst : first ≤ offset) (t : Text) :
    Position.after ⟨line, offset - first + 1⟩ t =
      ⟨line + (startsFrom offset t).length,
        offset + t.length - (startsFrom offset t).getLastD first + 1⟩ := by
  induction t generalizing line first offset with
  | nil => rfl
  | cons c r ih =>
    rw [Position.after]
    have hlength : offset + (c :: r).length = offset + 1 + r.length := by
      rw [List.length_cons]
      omega
    -- a line feed starts a line, which is the last one so far
    by_cases hc : c = '\n'
    · have hstarts : startsFrom offset (c :: r) = (offset + 1) :: startsFrom (offset + 1) r := by
        rw [startsFrom, if_pos hc]
      have hrest := ih (line + 1) (offset + 1) (offset + 1) (Nat.le_refl _)
      rw [Nat.sub_self, Nat.zero_add, Nat.add_assoc line, Nat.add_comm 1] at hrest
      rw [if_pos hc, hstarts, hlength, hrest, List.getLastD_cons, List.length_cons]
    · have hstarts : startsFrom offset (c :: r) = startsFrom (offset + 1) r := by
        rw [startsFrom, if_neg hc]
      have hcolumn : offset - first + 1 + 1 = offset + 1 - first + 1 := by omega
      rw [if_neg hc, hstarts, hlength, hcolumn]
      exact ih line first (offset + 1) (Nat.le_succ_of_le hfirst)

/-- The line of an offset is found among the starts of the lines. -/
theorem position_ofText {t : Text} {offset : Nat} (h : offset ≤ t.length) :
    (ofText t).position offset = Position.scan t offset := by
  obtain ⟨s, r, rfl, rfl⟩ : ∃ s r, t = s ++ r ∧ offset = s.length :=
    ⟨t.take offset, t.drop offset, (List.take_append_drop _ _).symm, by
      rw [List.length_take, Nat.min_eq_left h]⟩
  have hscan : Position.scan (s ++ r) s.length = Position.after ⟨1, 0 - 0 + 1⟩ s := by
    rw [Position.scan, List.take_left]
  rw [hscan, after_eq 1 0 0 (Nat.le_refl _) s]
  simp only [position, countFrom_ofText, Nat.le_add_left, Nat.max_eq_left, Nat.add_sub_cancel]
  -- the last start that is not above the offset
  have hlast : (ofText (s ++ r)).starts[(startsFrom 0 s).length]?.getD 0 =
      (startsFrom 0 s).getLastD 0 := by
    have hlt : (startsFrom 0 s).length < (0 :: startsFrom 0 s).length := Nat.lt_succ_self _
    rw [ofText, startsFrom_append, ← List.cons_append, List.getElem?_toArray,
      List.getElem?_append_left hlt]
    have hget := List.getLast?_eq_getElem? (l := 0 :: startsFrom 0 s)
    rw [List.getLast?_cons, List.length_cons, Nat.add_sub_cancel] at hget
    rw [← hget, Option.getD_some, List.getLastD_eq_getLast?]
  rw [hlast, Nat.zero_add, Nat.add_comm 1]

end LineIndex

/-! ## Expressions -/

/-- Assignments in an expression have targets, and all positions in it have the property. -/
inductive Expression.IsSoundAt (R : Position → Prop) : Expression → Prop where
  | number {place : Position} {value : Float} (hplace : R place) : IsSoundAt R (.number place value)
  | string {place : Position} {value : Text} (hplace : R place) : IsSoundAt R (.string place value)
  | bool {place : Position} {value : Bool} (hplace : R place) : IsSoundAt R (.bool place value)
  | null {place : Position} (hplace : R place) : IsSoundAt R (.null place)
  | undefined {place : Position} (hplace : R place) : IsSoundAt R (.undefined place)
  | array {place : Position} {items : List Expression} (hplace : R place)
    (hitems : ∀ e ∈ items, IsSoundAt R e) : IsSoundAt R (.array place items)
  | identifier {place : Position} {name : Text} (hplace : R place) :
    IsSoundAt R (.identifier place name)
  | unary {place : Position} {operator : UnaryOperator} {operand : Expression} (hplace : R place)
    (hoperand : IsSoundAt R operand) : IsSoundAt R (.unary place operator operand)
  | binary {place : Position} {operator : BinaryOperator} {left right : Expression}
    (hplace : R place) (hleft : IsSoundAt R left) (hright : IsSoundAt R right) :
    IsSoundAt R (.binary place operator left right)
  | conditional {place : Position} {test yes no : Expression} (hplace : R place)
    (htest : IsSoundAt R test) (hyes : IsSoundAt R yes) (hno : IsSoundAt R no) :
    IsSoundAt R (.conditional place test yes no)
  | assign {place : Position} {operator : AssignmentOperator} {target value : Expression}
    (hplace : R place) (htarget : IsSoundAt R target) (hisTarget : target.isTarget = true)
    (hvalue : IsSoundAt R value) : IsSoundAt R (.assign place operator target value)
  | call {place : Position} {callee : Expression} {operands : List Expression} (hplace : R place)
    (hcallee : IsSoundAt R callee) (hoperands : ∀ e ∈ operands, IsSoundAt R e) :
    IsSoundAt R (.call place callee operands)
  | index {place : Position} {object key : Expression} (hplace : R place)
    (hobject : IsSoundAt R object) (hkey : IsSoundAt R key) : IsSoundAt R (.index place object key)
  | member {place : Position} {object : Expression} {name : Text} (hplace : R place)
    (hobject : IsSoundAt R object) : IsSoundAt R (.member place object name)
  | construct {place : Position} {name : Text} {operands : List Expression} (hplace : R place)
    (hoperands : ∀ e ∈ operands, IsSoundAt R e) : IsSoundAt R (.construct place name operands)

theorem Expression.IsSoundAt.position {R : Position → Prop} {e : Expression} (h : e.IsSoundAt R) :
    R e.position := by
  cases h <;> assumption

/-- A sound expression stands somewhere. -/
theorem Expression.IsSound.isSoundAt {e : Expression} (h : e.IsSound) :
    e.IsSoundAt fun _ => True := by
  induction h with
  | number => exact .number trivial
  | string => exact .string trivial
  | bool => exact .bool trivial
  | null => exact .null trivial
  | undefined => exact .undefined trivial
  | array _ ih => exact .array trivial ih
  | identifier => exact .identifier trivial
  | unary _ ih => exact .unary trivial ih
  | binary _ _ ihleft ihright => exact .binary trivial ihleft ihright
  | conditional _ _ _ ihtest ihyes ihno => exact .conditional trivial ihtest ihyes ihno
  | assign _ hisTarget _ ihtarget ihvalue => exact .assign trivial ihtarget hisTarget ihvalue
  | call _ _ ihcallee ihoperands => exact .call trivial ihcallee ihoperands
  | index _ _ ihobject ihkey => exact .index trivial ihobject ihkey
  | member _ ihobject => exact .member trivial ihobject
  | construct _ ih => exact .construct trivial ih

section

variable {index : LineIndex} {Q : Nat → Prop} {R : Position → Prop}
  (hR : ∀ offset, Q offset → R (index.position offset))
include hR

private theorem settles_deepen_at {offset : Nat} (h : Q offset) (depth levels : Nat) :
    Settles (fun fault => R fault.position) (fun _ => True) (deepen index offset depth levels) := by
  unfold deepen
  split
  · exact hR offset h
  · trivial

omit hR in
private theorem checkAll_isSoundAt {ps : List Phrase}
    (h : ∀ p ∈ ps, ∀ entered depth, Settles (fun fault => R fault.position)
      (fun found => found.1.IsSoundAt R) (p.check index entered depth)) (depth : Nat) :
    Settles (fun fault => R fault.position) (fun es => ∀ e ∈ es, e.IsSoundAt R)
      (Phrase.checkAll index depth ps) := by
  induction ps with
  | nil => exact settles_pure (by simp)
  | cons p ps ih =>
    obtain ⟨hp, hps⟩ := List.forall_mem_cons.1 h
    rw [Phrase.checkAll]
    refine (hp 0 depth).bind fun e he => (ih hps).bind fun es hes => settles_pure ?_
    exact List.forall_mem_cons.2 ⟨he, hes⟩

/-- The expression of a phrase stands at the positions of the phrase, and so does its fault. -/
private theorem check_isSoundAt {p : Phrase} (h : p.IsWritten Q) (entered : Level) (depth : Nat) :
    Settles (fun fault => R fault.position) (fun found => found.1.IsSoundAt R)
      (p.check index entered depth) := by
  have hdeepen {offset depth levels : Nat} (h : Q offset) :=
    settles_deepen_at hR h depth levels
  -- places come from the offsets that were written, and so do the places of faults
  induction h generalizing entered depth with
  | number hplace =>
    rw [Phrase.check]
    exact (hdeepen hplace).bind fun _ _ => settles_pure (.number (hR _ hplace))
  | string hplace =>
    rw [Phrase.check]
    exact (hdeepen hplace).bind fun _ _ => settles_pure (.string (hR _ hplace))
  | bool hplace =>
    rw [Phrase.check]
    exact (hdeepen hplace).bind fun _ _ => settles_pure (.bool (hR _ hplace))
  | null hplace =>
    rw [Phrase.check]
    exact (hdeepen hplace).bind fun _ _ => settles_pure (.null (hR _ hplace))
  | undefined hplace =>
    rw [Phrase.check]
    exact (hdeepen hplace).bind fun _ _ => settles_pure (.undefined (hR _ hplace))
  | identifier hplace =>
    rw [Phrase.check]
    exact (hdeepen hplace).bind fun _ _ => settles_pure (.identifier (hR _ hplace))
  | array hplace _ ih =>
    rw [Phrase.check]
    refine (hdeepen hplace).bind fun depth _ => ?_
    exact (checkAll_isSoundAt ih depth).bind fun es hes => settles_pure (.array (hR _ hplace) hes)
  | construct hplace _ ih =>
    rw [Phrase.check]
    refine (hdeepen hplace).bind fun depth _ => ?_
    exact (checkAll_isSoundAt ih depth).bind fun es hes =>
      settles_pure (.construct (hR _ hplace) hes)
  | group hplace _ ih =>
    rw [Phrase.check]
    refine (hdeepen hplace).bind fun depth _ => ?_
    exact (ih 0 depth).bind fun inner hinner => settles_pure hinner
  | call hcallee _ hplace _ ihcallee ihoperands =>
    rw [Phrase.check]
    refine (hdeepen hcallee.start).bind fun depth _ => (ihcallee _ depth).bind fun callee hcallee => ?_
    refine (hdeepen hplace).bind fun _ _ => (checkAll_isSoundAt ihoperands depth).bind fun es hes => ?_
    exact settles_pure (.call hcallee.position hcallee hes)
  | index hobject _ hplace _ ihobject ihkey =>
    rw [Phrase.check]
    refine (hdeepen hobject.start).bind fun depth _ => (ihobject _ depth).bind fun object hobject => ?_
    refine (hdeepen hplace).bind fun _ _ => (ihkey 0 depth).bind fun key hkey => ?_
    exact settles_pure (.index (hR _ hplace) hobject hkey)
  | member hobject _ hplace hnamePlace ihobject =>
    rw [Phrase.check]
    refine (hdeepen hobject.start).bind fun depth _ => (ihobject _ depth).bind fun object hobject => ?_
    exact (hdeepen hplace).bind fun _ _ => settles_pure (.member (hR _ hnamePlace) hobject)
  | unary hplace _ _ ih =>
    rw [Phrase.check]
    refine (hdeepen hplace).bind fun depth _ => (ih _ depth).bind fun operand hoperand => ?_
    dsimp only
    split
    · exact (hdeepen hplace).bind fun _ _ => settles_pure (.unary (hR _ hplace) hoperand)
    · exact settles_pure (.unary (hR _ hplace) hoperand)
  | binary hleft _ hplace _ _ ihleft ihright =>
    rw [Phrase.check]
    refine (hdeepen hleft.start).bind fun depth _ => (ihleft _ depth).bind fun left hleft => ?_
    refine (hdeepen hplace).bind fun _ _ => (ihright _ depth).bind fun right hright => ?_
    exact settles_pure (.binary hleft.position hleft hright)
  | conditional htest _ _ _ ihtest ihyes ihno =>
    rw [Phrase.check]
    refine (hdeepen htest.start).bind fun depth _ => (ihtest _ depth).bind fun test htest' => ?_
    refine (ihyes _ depth).bind fun yes hyes => (ihno _ depth).bind fun no hno => ?_
    exact settles_pure (.conditional (hR _ htest.start) htest' hyes hno)
  | assign htarget _ _ ihtarget ihvalue =>
    rw [Phrase.check]
    refine (hdeepen htarget.start).bind fun depth _ => (ihtarget _ depth).bind fun target htarget' => ?_
    dsimp only
    split
    · exact hR _ htarget.start
    · rename_i hisTarget
      refine (ihvalue _ depth).bind fun value hvalue => settles_pure ?_
      exact .assign (hR _ htarget.start) htarget' (by simpa using hisTarget) hvalue

/-- What the positions of written places have in common holds of all positions in a program. -/
theorem isCarried_isSoundAt :
    IsCarried index Q (fun fault => R fault.position) (Expression.IsSoundAt R) R where
  phrase _ hp entered _ := check_isSoundAt hR hp entered 0
  place := hR
  fault offset _ := hR offset

end

/-! ## Programs -/

/-- A token that is no closing brace stands there, not before an offset. -/
def StandsFrom (first : Nat) (t : Text) (offset : Nat) : Prop :=
  first ≤ offset ∧ ∃ c r, t.drop offset = c :: r ∧ c ≠ '\x7d'

theorem StandsFrom.lt_length {first offset : Nat} {t : Text} (h : StandsFrom first t offset) :
    offset < t.length := by
  obtain ⟨-, c, r, hdrop, -⟩ := h
  by_contra hle
  rw [List.drop_eq_nil_of_le (Nat.le_of_not_lt hle)] at hdrop
  cases hdrop

/-- A reader is somewhere in the text, not before an offset. -/
def Cursor.IsFrom (first : Nat) (t : Text) (c : Cursor) : Prop :=
  c.rest = t.drop c.offset ∧ first ≤ c.offset

theorem Cursor.IsFrom.advance {first : Nat} {t : Text} {c : Cursor} (h : c.IsFrom first t) (n : Nat) :
    (c.advance n).IsFrom first t :=
  ⟨by rw [Cursor.advance, h.1, List.drop_drop], Nat.le_trans h.2 (Nat.le_add_right _ _)⟩

theorem Cursor.isFrom_ofText (t : Text) : (Cursor.ofText t).IsFrom 0 t :=
  Cursor.IsFrom.advance (c := ⟨t, 0⟩) ⟨rfl, Nat.le_refl _⟩ _

theorem surveys_standsFrom (first : Nat) (t : Text) :
    Reader.Surveys (Cursor.IsFrom first t) (StandsFrom first t) where
  next _ n h := (h.advance n).advance _
  place _ a r h hrest ha := ⟨h.2, a, r, h.1 ▸ hrest, ha⟩

/-- Everything in a program stands at the position of a place in its text. -/
theorem Program.everywhere_of_parse {t : Text} {program : Program}
    (h : Program.parse t = .ok program) :
    let R := fun p => ∃ offset < t.length, p = Position.scan t offset
    ∀ c ∈ program, c.Everywhere (Expression.IsSoundAt R) R R IsIdentifier := by
  intro R
  refine Program.parse_everywhere (surveys_standsFrom 0 t) Grammar.names_isIdentifier
    (Cursor.isFrom_ofText t) (isCarried_isSoundAt fun offset hoffset => ?_) h
  have hlt := hoffset.lt_length
  exact ⟨offset, hlt, LineIndex.position_ofText (Nat.le_of_lt hlt)⟩

end Pseudocode.Script
