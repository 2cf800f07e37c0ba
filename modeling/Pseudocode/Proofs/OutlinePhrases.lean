import Pseudocode.Proofs.LoopHeaders
import Pseudocode.Proofs.OutlineScript

/-!
# Reading the phrases of an outline

Operands, conditions, assignments, calls and the clauses of counting loops are read from their
script as the expressions that they say. A misread step is read as what it is translated to, which
is another name.
-/

namespace Pseudocode.Outline

open Script Reader Grammar

section

variable {fuel depth : Nat} {self : Reader Phrase} {t : Text}

/-! ## Operands -/

theorem IsWord.isIdentifier {w : Text} (h : IsWord w) (hkeyword : w ∉ Token.keywords) :
    IsIdentifier w := by
  obtain ⟨c, r, hchars, hstart⟩ := h.cons
  refine ⟨⟨c, r, hchars, ?_⟩, fun c hc => (h.isNameChar hc).identifier, hkeyword⟩
  simp only [Shape.isNameStart, Bool.or_eq_true, decide_eq_true_eq] at hstart
  simp [Text.isIdentifierStart, hstart]

theorem Name.isIdentifier (n : Name) : IsIdentifier n.chars := n.isWord.isIdentifier n.notKeyword

theorem IsNameChar.skip_cons {c : Char} (h : IsNameChar c) (t : Text) : skip (c :: t) = c :: t :=
  skip_cons_of_isIdentifierChar h.identifier t

theorem Operand.skip_source (o : Operand) (t : Text) : skip (o.source ++ t) = o.source ++ t := by
  obtain ⟨c, r, hcons, hc⟩ := o.source_cons
  rw [hcons, List.cons_append]
  rcases hc with hc | rfl
  · exact hc.skip_cons (r ++ t)
  · exact skip_cons_of_token rfl (by decide) (r ++ t)

theorem Operand.reads_unary (o : Operand) (h : EndsOperand t) :
    Reads (unary fuel self) (o.source ++ t) (fun p => p.Means 12 o.expression) (skip t) := by
  cases o with
  | quoted q =>
    rw [source, ← quote_of_isPlain q.plain]
    exact h.reads_quote q.chars
  | bound b =>
    cases b with
    | name n => exact h.reads_identifier n.isIdentifier
    | digits d => exact h.reads_number d.isPositional d.bits?_chars

/-- What is read as an operand wherever one ends is a phrase. -/
theorem reads_operand {w : Text} {room : Nat} {e : Expression}
    (hskip : ∀ t, skip (w ++ t) = w ++ t)
    (h : ∀ t, EndsOperand t →
      Reads (unary fuel (phrase fuel depth)) (w ++ t) (fun p => p.Means room e) (skip t)) :
    ReadsPhrase (phrase fuel (depth + 1)) room w e := by
  refine ⟨hskip, fun c hc t => ?_⟩
  have hends := endsPhrase_closer hc t
  exact reads_phrase_closer hc (reads_binary_operand (h _ hends.toEndsOperand) hends.operator)

/-- An operand by itself. -/
theorem Operand.reads (o : Operand) :
    ReadsPhrase (phrase fuel (depth + 1)) 12 o.source o.expression :=
  reads_operand o.skip_source fun _ h => o.reads_unary h

/-- A name of the script by itself. -/
theorem reads_name {w : Text} (hw : IsIdentifier w) :
    ReadsPhrase (phrase fuel (depth + 1)) 12 w (.identifier nowhere w) :=
  reads_operand hw.skip_append fun _ h => h.reads_identifier hw

/-- A string by itself. -/
theorem reads_quote (value : Text) :
    ReadsPhrase (phrase fuel (depth + 1)) 12 (quote value) (.string nowhere value) :=
  reads_operand (fun _ => skip_cons_of_token rfl (by decide) _) fun _ h => h.reads_quote value

/-- The shortest text of a double by itself. -/
theorem reads_shortestText {bits : Nat} (h : bits < Double.infinityBits) :
    ReadsPhrase (phrase fuel (depth + 1)) 12 (Numeral.shortestText (Double.ofBits bits))
      (.number nowhere (Float.ofBits (UInt64.ofNat bits))) :=
  (isExpression_shortestText h).readsPhrase (Nat.le_add_left 1 depth)

/-! ## Comparisons -/

/-- Two operands with an operator of comparison between them. -/
theorem reads_comparison {operator : BinaryOperator} {left right : Operand} (hfuel : 0 < fuel)
    (hoperator : ∃ c r, operator.sign = c :: r ∧ isGap c = false ∧ c ∉ ['/', '(', '[', '.'])
    (h : EndsBinary t) :
    Reads (binary fuel self)
      (left.source ++ ' ' :: (operator.sign ++ ' ' :: (right.source ++ t)))
      (fun p => p.Means 24 (.binary nowhere operator left.expression right.expression)) (skip t) := by
  obtain ⟨c, r, hcons, hgap, hsign⟩ := hoperator
  have hends : EndsOperand (' ' :: (operator.sign ++ ' ' :: (right.source ++ t))) := by
    rw [hcons]
    exact endsOperand_space hgap hsign _
  have hskip : skip (' ' :: (operator.sign ++ ' ' :: (right.source ++ t)))
      = operator.sign ++ ' ' :: (right.source ++ t) := by
    rw [hcons, skip_space, List.cons_append,
      skip_cons_of_token hgap fun heq => hsign (by simp [heq])]
  have hleft : Reads (unary fuel self) _ _ _ := left.reads_unary hends
  have hright : Reads (unary fuel self) _ _ _ := right.reads_unary h.toEndsOperand
  rw [hskip] at hleft
  rw [← right.skip_source t] at hright
  exact reads_binary operator hleft hright h.operator hfuel

theorem Condition.skip_script (c : Condition) (t : Text) : skip (c.script ++ t) = c.script ++ t := by
  cases c with
  | single o => exact o.skip_source t
  | compare left relation right =>
    rw [script, List.append_assoc]
    exact left.skip_source _

/-- A condition by itself. -/
theorem Condition.reads (c : Condition) (hfuel : 0 < fuel) :
    ReadsPhrase (phrase fuel (depth + 1)) 24 c.script c.expression := by
  cases c with
  | single o => exact o.reads.mono (by decide)
  | compare left relation right =>
    refine ⟨(compare left relation right).skip_script, fun c hc t => ?_⟩
    have hends := endsPhrase_closer hc t
    have hoperator : ∃ c r, relation.operator.sign = c :: r ∧ isGap c = false ∧
        c ∉ ['/', '(', '[', '.'] := by
      cases relation <;> exact ⟨_, _, rfl, rfl, by decide⟩
    have hcomparison : Reads (binary fuel (phrase fuel depth))
        (left.source ++ ' ' :: (relation.operator.sign ++ ' ' :: (right.source ++ c :: t))) _ _ :=
      reads_comparison hfuel hoperator hends.toEndsBinary
    rw [script, List.append_assoc, List.cons_append, List.append_assoc, List.cons_append]
    exact reads_phrase_closer hc hcomparison

/-! ## Assignments and calls -/

/-- A name that is assigned a value. -/
theorem Name.reads_assignment (n : Name) (operator : AssignmentOperator) {room : Nat} {written : Text}
    {e : Expression} (h : ReadsPhrase (phrase fuel depth) room written e) (hroom : 12 ≤ room) :
    ReadsPhrase (phrase fuel (depth + 1)) (room + 12)
      (n.chars ++ ' ' :: (operator.sign ++ ' ' :: written))
      (.assign nowhere operator n.expression e) :=
  reads_countingUpdate n.isIdentifier operator h hroom

/-- A call of a name. -/
theorem reads_call {β : Type} {w : Text} {operands : List β} {source : β → Text}
    {expression : β → Expression} (hw : IsIdentifier w)
    (hoperands : ∀ b ∈ operands, ReadsPhrase (phrase fuel (depth + 1)) 12 (source b) (expression b))
    (hfuel : operands.length < fuel) :
    ReadsPhrase (phrase fuel (depth + 2)) 24
      (w ++ '(' :: (Text.join (text ", ") (operands.map source) ++ [')']))
      (.call nowhere (.identifier nowhere w) (operands.map expression)) := by
  refine ⟨fun t => ?_, fun c hc t => ?_⟩
  · rw [List.append_assoc]
    exact hw.skip_append _
  · have hends := endsPhrase_closer hc t
    have hitems : ∀ b ∈ operands, ReadsItem (phrase fuel (depth + 1))
        (fun (b : β) p => p.Means 12 (expression b)) (source b) b :=
      fun b hb => ⟨(hoperands b hb).skip, (hoperands b hb).reads⟩
    have hcall := hends.toEndsOperand.reads_call hw hitems
      (fun t => fails_phrase (by decide) t (depth + 1)) hfuel
    rw [List.append_assoc, List.cons_append, List.append_assoc, List.singleton_append]
    exact reads_phrase_closer hc (reads_binary_operand hcall hends.operator)

/-! ## Counting loops -/

/-- The test against the last value. -/
theorem Counter.isExpression_compare (c : Counter) (operator : BinaryOperator) (hfuel : 0 < fuel)
    (hoperator : ∃ c r, operator.sign = c :: r ∧ isGap c = false ∧ c ∉ ['/', '(', '[', '.']) :
    IsExpression fuel 1 24 (c.compareScript operator) (c.compare operator) := by
  refine ⟨fun t => ?_, fun depth hdepth t hends => ?_⟩
  · rw [compareScript, List.append_assoc]
    exact c.name.isIdentifier.skip_append _
  · obtain ⟨depth, rfl⟩ : ∃ n, depth = n + 1 := ⟨depth - 1, by omega⟩
    have hcomparison : Reads (binary fuel (phrase fuel depth))
        ((Operand.bound (.name c.name)).source ++
          ' ' :: (operator.sign ++ ' ' :: ((Operand.bound c.stop).source ++ t))) _ _ :=
      reads_comparison hfuel hoperator hends.toEndsBinary
    rw [compareScript, List.append_assoc, List.cons_append, List.append_assoc, List.cons_append]
    exact hends.reads_phrase hcomparison

/-- The sign of a step that is looked at in every round chooses between two tests. -/
theorem Counter.reads_runtime (c : Counter) (step : Name) (hfuel : 0 < fuel) :
    ReadsPhrase (phrase fuel (depth + 2)) 48
      ('(' :: step.chars ++ text ") > 0 ? " ++ c.compareScript .lessEqual ++ text " : " ++
        c.compareScript .greaterEqual) (c.runtimeClauses step).1 := by
  have hstep : IsExpression fuel 1 12 step.chars step.expression :=
    isExpression_operand step.isIdentifier.skip_append fun _ _ hends =>
      hends.reads_identifier step.isIdentifier
  have hup := c.isExpression_compare .lessEqual hfuel ⟨_, _, rfl, rfl, by decide⟩
  have hdown := c.isExpression_compare .greaterEqual hfuel ⟨_, _, rfl, rfl, by decide⟩
  exact (hstep.reads_test hup hdown (Nat.le_refl 12) hfuel).readsPhrase (Nat.le_add_left 2 depth)

theorem Bound.isIdentifier_misreading (b : Bound) : IsIdentifier b.misreading := by
  have hnan : IsIdentifier (text "NaN") :=
    ⟨⟨'N', ['a', 'N'], rfl, rfl⟩, List.all_eq_true.1 (by decide), by decide⟩
  have hinf : IsIdentifier (text "inf") :=
    ⟨⟨'i', ['n', 'f'], rfl, rfl⟩, List.all_eq_true.1 (by decide), by decide⟩
  cases b with
  | digits d => exact hinf
  | name n =>
    by_cases h : Text.sameWord n.chars (text "nan") = true
    · rw [misreading, if_pos h]
      exact hnan
    · rw [misreading, if_neg h]
      exact hinf

/-- The test and the update of a counting loop. -/
theorem Counter.reads_clauses (c : Counter) (hfuel : 0 < fuel) :
    ReadsPhrase (phrase fuel (depth + 2)) 48 c.scriptClauses.1 c.translatedClauses.1 ∧
      ReadsPhrase (phrase fuel (depth + 2)) 48 c.scriptClauses.2 c.translatedClauses.2 := by
  have hless : ReadsPhrase (phrase fuel (depth + 2)) 48 (c.compareScript .lessEqual)
      (c.compare .lessEqual) := by
    have h := c.isExpression_compare .lessEqual hfuel ⟨_, _, rfl, rfl, by decide⟩
    exact (h.readsPhrase (by omega)).mono (by decide)
  have hadvance {written : Text} {e : Expression}
      (h : ReadsPhrase (phrase fuel (depth + 1)) 12 written e) :
      ReadsPhrase (phrase fuel (depth + 2)) 48 (c.advanceScript written) (c.advance e) := by
    have hassign := (c.name.reads_assignment .add h (Nat.le_refl 12)).mono (show 24 ≤ 48 by decide)
    have htext : c.advanceScript written
        = c.name.chars ++ ' ' :: (AssignmentOperator.add.sign ++ ' ' :: written) := by
      simp [advanceScript, AssignmentOperator.sign, text]
    rw [htext]
    exact hassign
  unfold scriptClauses translatedClauses
  cases hstep : c.step with
  | none =>
    simp only [clauses, hstep]
    exact ⟨hless, hadvance (Operand.bound (.digits .one)).reads⟩
  | some step =>
    simp only
    -- a step that is infinite or no number is written as a word, which the script reads as a name
    by_cases hmisread : step.IsMisread
    · rw [if_pos hmisread, if_pos hmisread]
      exact ⟨hless, hadvance (reads_name step.isIdentifier_misreading)⟩
    · rw [if_neg hmisread, if_neg hmisread]
      cases step with
      | digits d =>
        simp only [clauses, hstep]
        exact ⟨hless, hadvance (reads_shortestText (Nat.lt_of_le_of_ne d.bits_le hmisread))⟩
      | name n =>
        simp only [clauses, hstep]
        exact ⟨c.reads_runtime n hfuel, hadvance (reads_name n.isIdentifier)⟩

end

end Pseudocode.Outline
