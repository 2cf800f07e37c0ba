import Pseudocode.Proofs.OutlineLines
import Pseudocode.Proofs.ShortestDigits
import Pseudocode.Translation

/-!
# The script of an outline

Every line of an outline is translated to the script that is written from the same words
(`Entry.statement_source`). Operands stay as they are, relations become operators, and the clauses
of a counting loop depend on whether its step is taken for a number.
-/

namespace Pseudocode.Outline

open Expression

/-! ## Lines of script -/

/-- The script of a condition. -/
def Condition.script : Condition → Text
  | single o => o.source
  | compare left relation right =>
    left.source ++ ' ' :: (relation.operator.sign ++ ' ' :: right.source)

/-- The script of a statement without a block. -/
def Simple.script : Simple → Text
  | print operands => text "print(" ++ list operands ++ text ");"
  | assign target value => target.chars ++ text " = " ++ value.source ++ [';']
  | call callee operands => callee.chars ++ '(' :: (list operands ++ [')']) ++ [';']
  | returning none => text "return;"
  | returning (some value) => text "return " ++ value.source ++ [';']
  | breaking => text "break;"
  | continuing => text "continue;"

namespace Counter

/-- The script of the test against the last value. -/
def compareScript (c : Counter) (operator : BinaryOperator) : Text :=
  c.name.chars ++ ' ' :: (operator.sign ++ ' ' :: c.stop.source)

/-- The script of the update by a step. -/
def advanceScript (c : Counter) (step : Text) : Text := c.name.chars ++ text " += " ++ step

/-- The script of the test and of the update. -/
def scriptClauses (c : Counter) : Text × Text :=
  match c.step with
  | none => (c.compareScript .lessEqual, c.advanceScript ['1'])
  | some step =>
    if step.IsMisread then (c.compareScript .lessEqual, c.advanceScript step.misreading)
    else match step with
      | .digits d =>
        (c.compareScript .lessEqual, c.advanceScript (Numeral.shortestText (Double.ofBits d.bits)))
      | .name n =>
        ('(' :: n.chars ++ text ") > 0 ? " ++ c.compareScript .lessEqual ++ text " : " ++
          c.compareScript .greaterEqual, c.advanceScript n.chars)

/-- The script of a counting loop. -/
def script (c : Counter) : Text :=
  text "for (let " ++ c.name.chars ++ text " = " ++ c.start.source ++ text "; " ++
    c.scriptClauses.1 ++ text "; " ++ c.scriptClauses.2 ++ text ") \x7b"

end Counter

/-- The script of a line. -/
def Entry.script : Entry → Text
  | header => text "// Algorithm A"
  | footer => text "// EndAlgorithm"
  | simple s => s.script
  | whileLoop c => text "while (" ++ c.script ++ text ") \x7b"
  | forLoop c => c.script
  | function name parameters =>
    text "function " ++ name.chars ++
      '(' :: (Text.join (text ", ") (parameters.map Name.chars) ++ text ") \x7b")
  | branch c => text "if (" ++ c.script ++ text ") \x7b"
  | elseIf c => text "\x7d else if (" ++ c.script ++ text ") \x7b"
  | otherwise => text "\x7d else \x7b"
  | ending _ => text "\x7d"

/-! ## Operands and conditions -/

/-- Operands are the same in the script. -/
theorem Operand.value_source (o : Operand) : Translation.value o.source = o.source := by
  refine rewrite_eq o.isTrimmed (fun token htoken => ?_) _
  rw [o.tokens_source] at htoken
  exact (o.isInert token htoken).isKept

theorem Bound.value_source (b : Bound) : Translation.value b.source = b.source :=
  (Operand.bound b).value_source

theorem Name.value_chars (n : Name) : Translation.value n.chars = n.chars :=
  (Bound.name n).value_source

theorem map_value_source (operands : List Operand) :
    (operands.map Operand.source).map Translation.value = operands.map Operand.source := by
  rw [List.map_map]
  exact List.map_congr_left fun o _ => o.value_source

theorem value_call (callee : Name) (operands : List Operand) :
    Translation.value (callee.chars ++ '(' :: (list operands ++ [')']))
      = callee.chars ++ '(' :: (list operands ++ [')']) := by
  have htrimmed : Text.IsTrimmed (callee.chars ++ '(' :: (list operands ++ [')'])) :=
    (Simple.call callee operands).isTrimmed
  refine rewrite_eq htrimmed (fun token htoken => ?_) _
  rw [tokens_call] at htoken
  simp only [List.mem_cons, List.mem_append, List.not_mem_nil, or_false] at htoken
  rcases htoken with rfl | rfl | htoken | rfl
  · exact callee.wordOperator?_eq_none
  · simp [Token.IsKept]
  · exact isKept_list operands token htoken
  · simp [Token.IsKept]

/-- The relation of a condition is written as its operator, and everything else as it is. -/
theorem Condition.condition_source (c : Condition) : Translation.condition c.source = c.script := by
  cases c with
  | single o =>
    refine rewrite_eq o.isTrimmed (fun token htoken => ?_) _
    rw [o.tokens_source] at htoken
    exact (o.isInert token htoken).isKept
  | compare left relation right =>
    have hleft : ∀ token ∈ left.tokens, token.IsKept := fun token h => (left.isInert token h).isKept
    have hright : ∀ token ∈ right.tokens, token.IsKept := fun token h =>
      (right.isInert token h).isKept
    -- of a condition only the relation is rewritten
    have hrelation : rewriteTokens .condition (some ' ') (relation.source.map Token.sign ++
        .sign ' ' :: right.tokens)
          = relation.operator.sign ++ ' ' :: rewriteTokens .condition (some ' ') right.tokens := by
      cases relation <;> rfl
    rw [Translation.condition, rewrite, (compare left relation right).isTrimmed.trim, source,
      left.tokens_append (by simp [Text.isNameChar]; decide), relation.tokens_append,
      right.tokens_source, rewriteTokens_append hleft, hrelation, rewriteTokens_eq hright,
      left.chars_tokens, right.chars_tokens, script]

/-! ## Statements -/

theorem Simple.statement_source (s : Simple) :
    Translation.statement s.source s.statement = s.script := by
  cases s with
  | print operands =>
    simp only [statement, script, Translation.statement, map_value_source]
    rfl
  | assign target value =>
    simp only [statement, script, Translation.statement, target.value_chars, value.value_source]
    simp [AssignmentOperator.sign, text]
  | call callee operands =>
    simp only [statement, script, Translation.statement, value_call]
  | returning value =>
    cases value with
    | none => rfl
    | some value =>
      simp only [statement, script, Translation.statement, Option.map_some, value.value_source]
  | breaking => rfl
  | continuing => rfl

/-- The digits of an integer are a decimal of its value. -/
theorem Digits.isPositional (d : Digits) : Numeral.IsPositional d.chars d.chars [] :=
  ⟨d.ne_nil, d.digits, by simp, .inl ⟨rfl, rfl⟩⟩

theorem Digits.bits?_chars (d : Digits) : Numeral.bits? d.chars = some d.bits := by
  have h := Numeral.bits?_of_isPositional d.isPositional
  simpa [Digits.bits] using h

theorem Digits.bits_le (d : Digits) : d.bits ≤ Double.infinityBits :=
  Decimal.nearestBits_le _ _

/-- A name is read as a number if it is one of the three words for infinities and for NaN. -/
theorem Name.bits?_chars (n : Name) : Numeral.bits? n.chars =
    if Text.sameWord n.chars (text "nan") then some Double.nanBits
    else if Text.sameWord n.chars (text "inf") || Text.sameWord n.chars (text "infinity") then
      some Double.infinityBits
    else none := by
  obtain ⟨c, r, hchars, hstart⟩ := n.chars_cons
  have hletter : c ≠ '-' ∧ c ≠ '+' ∧ c ≠ '.' := by
    refine ⟨?_, ?_, ?_⟩ <;> rintro rfl <;> exact absurd hstart (by decide)
  have hsign : Numeral.splitSign (c :: r) = (false, c :: r) := by
    unfold Numeral.splitSign
    split <;> simp_all
  -- a name begins with a letter, so no decimal is read
  have hdecimal : Numeral.decimal? (c :: r) = none := by
    have hdigit := n.isWord.not_isDigit_start c (by rw [hchars]; rfl)
    have hsplit : Numeral.splitDigits (c :: r) = ([], c :: r) :=
      Numeral.splitDigits_append (List.forall_mem_nil _) (c :: r) (by simpa using hdigit)
    unfold Numeral.decimal?
    simp only [hsplit]
    split
    · rename_i heq
      exact absurd (List.cons.inj heq).1 hletter.2.2
    · rfl
  rw [hchars]
  simp only [Numeral.bits?, hsign, hdecimal]
  simp [Double.signBit]

namespace Counter

variable (c : Counter)

theorem filter_step (step : Bound) : (step.source.filter fun c => !Text.isBlank c) = step.source := by
  rw [List.filter_eq_self]
  intro c hc
  simp [(step.isNameChar hc).blank]

/-- The clauses of a counting loop are written as its step is read. -/
theorem loopClauses_eq : Translation.loopClauses c.name.chars c.stop.source (c.step.map Bound.source)
    = c.scriptClauses := by
  have htest (sign : Text) (operator : BinaryOperator) (hsign : ' ' :: (operator.sign ++ [' ']) = sign) :
      c.name.chars ++ sign ++ c.stop.source = c.compareScript operator := by
    rw [← hsign, compareScript]
    simp
  have hless := htest (text " <= ") .lessEqual rfl
  have hgreater := htest (text " >= ") .greaterEqual rfl
  have hbits : Double.infinityBits < 2 ^ 63 := by decide
  cases hstep : c.step with
  | none =>
    simp only [Translation.loopClauses, scriptClauses, hstep, Option.map_none, hless, advanceScript]
    simp [text]
  | some step =>
    simp only [Translation.loopClauses, scriptClauses, hstep, Option.map_some, filter_step,
      Numeral.double?]
    cases step with
    | digits d =>
      have hsource : (Bound.digits d).source = d.chars := rfl
      have hpositive : (Double.ofBits d.bits).isBelowZero = false :=
        Double.isBelowZero_ofBits (Nat.lt_of_le_of_lt d.bits_le hbits)
      simp only [hsource, d.bits?_chars, Option.map_some, hpositive, Bool.false_eq_true, ↓reduceIte,
        hless, advanceScript]
      -- so many digits that they round to infinity
      by_cases hinfinite : (Bound.digits d).IsMisread
      · have hdouble : Double.ofBits d.bits = .infinite false := by
          rw [show d.bits = Double.infinityBits from hinfinite]
          decide
        rw [if_pos hinfinite, hdouble]
        rfl
      · rw [if_neg hinfinite]
    | name n =>
      have hsource : (Bound.name n).source = n.chars := rfl
      rw [hsource, n.bits?_chars]
      -- a name that is read as a number in spite of being one
      by_cases hnan : Text.sameWord n.chars (text "nan") = true
      · have hmisread : (Bound.name n).IsMisread := .inl hnan
        have hdouble : Double.ofBits Double.nanBits = .nan := by decide
        rw [if_pos hnan, if_pos hmisread]
        simp only [Option.map_some, hdouble, Double.isBelowZero, Bool.false_eq_true, ↓reduceIte, hless,
          Bound.misreading, hnan, advanceScript]
        rfl
      · by_cases hinf : (Text.sameWord n.chars (text "inf") ||
          Text.sameWord n.chars (text "infinity")) = true
        · have hmisread : (Bound.name n).IsMisread := .inr (by simpa using hinf)
          have hdouble : Double.ofBits Double.infinityBits = .infinite false := by decide
          rw [if_neg hnan, if_pos hinf, if_pos hmisread]
          simp only [Option.map_some, hdouble, Double.isBelowZero, Bool.false_eq_true, ↓reduceIte,
            hless, Bound.misreading, hnan, advanceScript]
          rfl
        · have hmisread : ¬(Bound.name n).IsMisread := by
            rintro (h | h)
            · exact hnan h
            · exact hinf (by simpa using h)
          rw [if_neg hnan, if_neg hinf, if_neg hmisread]
          simp only [Option.map_none, n.value_chars, advanceScript, ← hless, ← hgreater]
          simp

theorem statement_source : Translation.statement c.source
    (.forLoop c.name.chars c.start.source c.stop.source (c.step.map Bound.source)) = c.script := by
  simp only [Translation.statement, Translation.forLoop, c.stop.value_source, c.start.value_source,
    c.loopClauses_eq, script]

end Counter

/-- The script of every line is the one that is written from its words. -/
theorem Entry.statement_source (e : Entry) :
    Translation.statement e.source e.statement = e.script := by
  have hopening (keyword operand : Text) : Translation.opening keyword operand
      = keyword ++ (text " (" ++ (operand ++ text ") \x7b")) := by
    simp [Translation.opening]
  cases e with
  | header => rfl
  | footer => rfl
  | otherwise => rfl
  | ending kind => rfl
  | simple s => exact s.statement_source
  | forLoop c => exact c.statement_source
  | function name parameters =>
    simp only [statement, Translation.statement, script]
    simp
  | whileLoop c =>
    simp only [statement, Translation.statement, script, hopening, c.condition_source]
    simp [text]
  | branch c =>
    simp only [statement, Translation.statement, script, hopening, c.condition_source]
    simp [text]
  | elseIf c =>
    simp only [statement, Translation.statement, script, hopening, c.condition_source]
    simp [text]

end Pseudocode.Outline
