import Pseudocode.Proofs.PhraseReading

/-!
# Levels of phrases

A phrase of a level is an operand of every looser level, and the reader of a level comes to it where
none of the operators of the levels between follows. So what has to be known of a text is how it is
read at its own level, and how a chain of its level goes on behind it.

* `EndsAt`       nothing makes a phrase of a level longer
* `readerAt`     the reader of the phrases of a level
* `ReadsLevel`   how a text is read at its own level; `ReadsLevel.reads` says how it is read at looser
  ones, `ReadsLevel.leads` and `ReadsLevel.leads_suffixes` where chains go on behind it
-/

namespace Pseudocode.Script

open Reader Grammar

/-! ## Ends -/

/-- Nothing makes a phrase of the level longer. -/
structure EndsAt (level : Nat) (t : Text) : Prop extends EndsOperand t where
  operator : ∀ l ∈ binaryLevels, level ≤ l → Token.binaryOperator? l (skip t) = none
  choice : level ≤ 2 → (skip t).head? ≠ some '?'
  assignment : level ≤ 1 → Token.assignmentOperator? (skip t) = none

section

variable {t : Text} {level higher : Nat}

theorem EndsAt.mono (h : EndsAt level t) (hle : level ≤ higher) : EndsAt higher t where
  toEndsOperand := h.toEndsOperand
  operator l hl hhigher := h.operator l hl (Nat.le_trans hle hhigher)
  choice hhigher := h.choice (Nat.le_trans hle hhigher)
  assignment hhigher := h.assignment (Nat.le_trans hle hhigher)

theorem EndsPhrase.endsAt (h : EndsPhrase t) : EndsAt 1 t where
  toEndsOperand := h.toEndsOperand
  operator l _ _ := h.operator l
  choice _ := h.choice
  assignment _ := h.assignment

/-- The test of a choice ends before the choice. -/
theorem endsAt_choice (t : Text) : EndsAt 3 (' ' :: '?' :: t) := by
  have h : EndsBinary (' ' :: '?' :: t) := endsBinary_space rfl (by decide) (by decide) t
  exact ⟨h.toEndsOperand, fun l _ _ => h.operator l, by simp, by simp⟩

/-- The target of an assignment ends before the operator. -/
theorem endsAt_assignment (operator : AssignmentOperator) (t : Text) :
    EndsAt 2 (' ' :: (operator.sign ++ ' ' :: t)) := by
  have h := endsBinary_assignment operator t
  refine ⟨h.toEndsOperand, fun l _ _ => h.operator l, fun _ => ?_, by simp⟩
  rw [skip_assignment]
  cases operator <;> simp [AssignmentOperator.sign, text]

theorem skip_binary (operator : BinaryOperator) (t : Text) :
    skip (' ' :: (operator.sign ++ ' ' :: t)) = operator.sign ++ ' ' :: t := by
  cases operator <;> rfl

theorem level_mem (operator : BinaryOperator) : operator.level ∈ binaryLevels := by
  cases operator <;> decide

/-- An operand ends before an operator that is looser. -/
theorem endsAt_binary (operator : BinaryOperator) (t : Text) :
    EndsAt (operator.level + 1) (' ' :: (operator.sign ++ ' ' :: t)) := by
  have hlevel : 3 ≤ operator.level := by cases operator <;> decide
  refine ⟨⟨⟨endsWord_cons rfl _, by simp⟩, ?_⟩, fun l hl hle => ?_, fun h => ?_, fun h => ?_⟩
  -- no suffix begins like an operator, and no tighter level has the operator
  · rw [skip_binary]
    cases operator <;> (rintro _ ⟨⟩; decide)
  · rw [skip_binary]
    exact binaryOperator?_sign_above hl hle t
  · exact absurd (Nat.le_trans (Nat.succ_le_succ hlevel) h) (by decide)
  · exact absurd (Nat.le_trans (Nat.succ_le_succ hlevel) h) (by decide)

end

/-! ## Levels -/

/-- The reader of the phrases of a level. -/
def readerAt (fuel : Nat) (self : Reader Phrase) : Nat → Reader Phrase
  | 0 | 1 => assignment fuel self
  | 2 => conditional fuel self
  | n + 3 =>
    if n ≤ 6 then (binaryLevels.drop n).foldr (fun l operand => chain fuel l operand) (unary fuel self)
    else suffixed fuel self

section

variable {fuel : Nat} {self : Reader Phrase} {w v t rest : Text} {e f g : Expression}
  {P Q : Phrase → Prop} {level : Nat}

theorem readerAt_eq_chain (h : level ∈ binaryLevels) :
    readerAt fuel self level = chain fuel level (readerAt fuel self (level + 1)) := by
  simp only [binaryLevels, List.mem_cons, List.not_mem_nil, or_false] at h
  rcases h with rfl | rfl | rfl | rfl | rfl | rfl <;> simp [readerAt, binaryLevels]

theorem mem_binaryLevels (hlow : 3 ≤ level) (hhigh : level ≤ 8) : level ∈ binaryLevels := by
  simp only [binaryLevels, List.mem_cons, List.not_mem_nil, or_false]
  omega

/-- A phrase is one of the next looser level if no operator of that level follows. -/
theorem reads_loosened (hlow : 1 ≤ level) (hhigh : level ≤ 8) (hends : EndsAt level t)
    (h : Reads (readerAt fuel self (level + 1)) w P (skip t)) :
    Reads (readerAt fuel self level) w P (skip t) := by
  by_cases hbinary : 3 ≤ level
  · have hmem := mem_binaryLevels hbinary hhigh
    rw [readerAt_eq_chain hmem]
    exact reads_chain h (hends.operator level hmem (Nat.le_refl level))
  · obtain rfl | rfl : level = 1 ∨ level = 2 := by omega
    · exact Reads.assignment h (hends.assignment (Nat.le_refl 1))
    · exact Reads.conditional h (hends.choice (Nat.le_refl 2))

/-- A phrase of a level is a phrase of every looser level. -/
theorem reads_looser {top : Nat} (htop : top ≤ 9) (hlevel : 1 ≤ level) (hle : level ≤ top)
    (h : EndsAt top t → Reads (readerAt fuel self top) w P (skip t)) (hends : EndsAt level t) :
    Reads (readerAt fuel self level) w P (skip t) := by
  -- from the tightest level down, one level at a time
  induction top, hle using Nat.le_induction with
  | base => exact h hends
  | succ top hle ih =>
    apply ih (by omega)
    intro hends
    exact reads_loosened (by omega) (by omega) hends (h (hends.mono (Nat.le_succ top)))

variable (fuel self) in
/-- Operators that are read before an operand, which make a longer phrase of it. -/
def ReadsPrefixed (w : Text) (P : Phrase → Prop) : Prop :=
  ∃ (operators : List UnaryOperator) (core : Text) (Q : Phrase → Prop),
    operators.length ≤ w.length ∧
    (∀ t, EndsOperand t → ReadsAll operatorBefore (fun operator found => found.2 = operator) (w ++ t)
        operators (core ++ t) ∧ Reads (suffixed fuel self) (core ++ t) Q (skip t)) ∧
    ∀ found p, List.Forall₂ (fun operator found => found.2 = operator) operators found → Q p →
      P (found.foldr (fun (start, operator) operand => .unary start operator operand) p)

variable (fuel self) in
/-- The text is read as a phrase of its level that means the expression. What is looser than every
    binary operator goes on as far as it can; where a chain may go on behind a text that is tighter,
    it leads to the text behind it. -/
inductive ReadsLevel : Nat → Text → Expression → Prop where
  | whole {level : Nat} {w : Text} {e : Expression} (hlevel : level ≤ 2)
    (reads : ∀ t, EndsAt 1 t →
      Reads (readerAt fuel self 1) (w ++ t) (fun p => p.Means (12 * w.length) e) (skip t)) :
    ReadsLevel level w e
  | binary {level : Nat} {w : Text} {e : Expression} (hlevel : level ∈ binaryLevels)
    (leads : ∀ t, EndsAt (level + 1) t →
      Leads (readerAt fuel self (level + 1)) (link level (readerAt fuel self (level + 1))) w t
        (fun p => p.Means (12 * w.length) e)) :
    ReadsLevel level w e
  | unary {w : Text} {e : Expression}
    (reads : ReadsPrefixed fuel self w fun p => p.Means (12 * w.length) e) : ReadsLevel 9 w e
  | suffixed {level : Nat} {w : Text} {e : Expression} (hlevel : level ∈ [10, 11])
    (plain : ∀ t, EndsWord t → Token.unaryOperator? (w ++ t) = none)
    (leads : ∀ t, EndsWord t → (level = 10 → t.head? ≠ some '.') →
      Leads (primary fuel self) (suffix fuel self) w t (fun p => p.Means (12 * w.length) e)) :
    ReadsLevel level w e

namespace ReadsLevel

/-- What has no operator is complete where nothing goes on behind it. -/
theorem reads_suffixed (h : ReadsLevel fuel self level w e) (hfuel : w.length ≤ fuel)
    (hlevel : 10 ≤ level) (hends : EndsOperand t) :
    Reads (Grammar.suffixed fuel self) (w ++ t) (fun p => p.Means (12 * w.length) e) (skip t) := by
  cases h with
  | whole hmost _ => omega
  | binary hmem _ => fin_cases hmem <;> simp at hlevel
  | unary _ => simp at hlevel
  | suffixed _ _ leads =>
    exact ((leads t hends.word fun _ => hends.point).reads (fails_suffix hends.suffix) hfuel).part

/-- What has no operator but unary ones. -/
theorem readsPrefixed (h : ReadsLevel fuel self level w e) (hfuel : w.length ≤ fuel)
    (hlevel : 9 ≤ level) : ReadsPrefixed fuel self w fun p => p.Means (12 * w.length) e := by
  cases h with
  | whole hmost _ => omega
  | binary hmem _ => fin_cases hmem <;> simp at hlevel
  | unary reads => exact reads
  | suffixed hmem plain leads =>
    -- no operator stands before it, so it is its own core
    have h : ReadsLevel fuel self level w e := .suffixed hmem plain leads
    have hsuffixed : 10 ≤ level := by fin_cases hmem <;> decide
    refine ⟨[], w, fun p => p.Means (12 * w.length) e, Nat.zero_le _, fun t ht => ⟨?_, ?_⟩, ?_⟩
    · exact .nil (fails_operatorBefore (plain t ht.word))
    · exact h.reads_suffixed hfuel hsuffixed ht
    · intro found p hfound hp
      obtain rfl := List.forall₂_nil_left_iff.1 hfound
      exact hp

theorem reads_unary (h : ReadsLevel fuel self level w e) (hfuel : w.length ≤ fuel)
    (hlevel : 9 ≤ level) (hends : EndsOperand t) :
    Reads (Grammar.unary fuel self) (w ++ t) (fun p => p.Means (12 * w.length) e) (skip t) := by
  obtain ⟨operators, core, Q, hcount, hreads, hmeans⟩ := h.readsPrefixed hfuel hlevel
  obtain ⟨hoperators, hcore⟩ := hreads t hends
  refine ((hoperators.many (Nat.le_trans hcount hfuel)).bind fun found hfound => ?_).part
  exact Reads.bind hcore fun p hp => reads_pure (hmeans found p hfound hp)

/-- An operand is read at all levels up to its own. -/
theorem reads {l : Nat} (h : ReadsLevel fuel self level w e) (hfuel : w.length ≤ fuel)
    (hlevel : 3 ≤ level) (hl : 1 ≤ l) (hle : l ≤ level) (hmost : l ≤ 9) (hends : EndsAt l t) :
    Reads (readerAt fuel self l) (w ++ t) (fun p => p.Means (12 * w.length) e) (skip t) := by
  by_cases hunary : 9 ≤ level
  · refine reads_looser (Nat.le_refl 9) hl hmost (fun hnine => ?_) hends
    exact h.reads_unary hfuel hunary hnine.toEndsOperand
  · refine reads_looser (by omega) hl hle (fun hself => ?_) hends
    cases h with
    | whole hmost _ => omega
    | binary hmem leads =>
      -- the chain leads to the end of the text, where no operator of its level follows
      rw [readerAt_eq_chain hmem]
      have hchain := leads t (hself.mono (Nat.le_succ level))
      have hstop := hself.operator level hmem (Nat.le_refl level)
      exact (hchain.reads (fun p => fails_operator p hstop) hfuel).part
    | unary _ => simp at hunary
    | suffixed hmem _ _ => fin_cases hmem <;> simp at hunary

/-- Every text is read as a whole phrase. -/
theorem reads_whole (h : ReadsLevel fuel self level w e) (hfuel : w.length ≤ fuel)
    (hends : EndsAt 1 t) :
    Reads (readerAt fuel self 1) (w ++ t) (fun p => p.Means (12 * w.length) e) (skip t) := by
  by_cases hlevel : 3 ≤ level
  · exact h.reads hfuel hlevel (Nat.le_refl 1) (by omega) (by omega) hends
  · cases h with
    | whole _ reads => exact reads t hends
    | binary hmem _ => fin_cases hmem <;> simp at hlevel
    | unary _ => simp at hlevel
    | suffixed hmem _ _ => fin_cases hmem <;> simp at hlevel

/-- A chain of binary operators may go on behind a text of its level or of a tighter one. -/
theorem leads {l : Nat} (h : ReadsLevel fuel self level w e) (hfuel : w.length ≤ fuel)
    (hl : l ∈ binaryLevels) (hle : l ≤ level) (hends : EndsAt (l + 1) t) :
    Leads (readerAt fuel self (l + 1)) (link l (readerAt fuel self (l + 1))) w t
      (fun p => p.Means (12 * w.length) e) := by
  have hbounds : 3 ≤ l ∧ l ≤ 8 := by fin_cases hl <;> decide
  -- a text of the same level is a chain already, and a tighter one is its first operand
  rcases Nat.eq_or_lt_of_le hle with rfl | hlt
  · cases h with
    | whole hmost _ => omega
    | binary _ leads => exact leads t hends
    | unary _ => simp at hbounds
    | suffixed hmem _ _ => fin_cases hmem <;> simp at hbounds
  · exact (h.reads hfuel (by omega) (by omega) hlt (by omega) hends).leads

/-- Suffixes may go on behind a text that has no operator. -/
theorem leads_suffixes (h : ReadsLevel fuel self level w e) (hlevel : 10 ≤ level)
    (hends : EndsWord t) (hpoint : level = 10 → t.head? ≠ some '.') :
    Leads (primary fuel self) (suffix fuel self) w t (fun p => p.Means (12 * w.length) e) := by
  cases h with
  | whole hmost _ => omega
  | binary hmem _ => fin_cases hmem <;> simp at hlevel
  | unary _ => simp at hlevel
  | suffixed _ _ leads => exact leads t hends hpoint

/-- No operator stands before a text without an operator. -/
theorem unaryOperator? (h : ReadsLevel fuel self level w e) (hlevel : 10 ≤ level)
    (hends : EndsWord t) : Token.unaryOperator? (w ++ t) = none := by
  cases h with
  | whole hmost _ => omega
  | binary hmem _ => fin_cases hmem <;> simp at hlevel
  | unary _ => simp at hlevel
  | suffixed _ plain _ => exact plain t hends

end ReadsLevel

end

end Pseudocode.Script
