import Pseudocode.Proofs.Literal
import Pseudocode.Proofs.SentenceReading

/-!
# The headers of counting loops

A counting loop goes up or down. Its direction is fixed by the operator of its test, or it is decided in
every round by the sign of the step. The texts of both are read as the tests and updates that they say,
whatever expressions they are made of, and a step may be a decimal with a sign.

* `IsExpression`              what it means to be the text of an expression
* `IsExpression.reads_test`   a test that looks at the sign of the step
* `reads_countingUpdate`      an update
* `StepSign.isExpression`     a decimal with a sign
-/

namespace Pseudocode.Script

open Reader Grammar

/-! ## Texts of expressions -/

/-- With the fuel, the text is read as the expression wherever `least` levels of phrases may nest, in
    front of all that ends phrases. -/
structure IsExpression (fuel least room : Nat) (w : Text) (e : Expression) : Prop where
  starts (t : Text) : skip (w ++ t) = w ++ t
  reads (depth : Nat) (h : least ≤ depth) (t : Text) (hends : EndsPhrase t) :
    Reads (phrase fuel depth) (w ++ t) (fun p => p.Means room e) (skip t)

section

variable {fuel least room most : Nat} {self : Reader Phrase} {step up down w t : Text}
  {e f g : Expression}

theorem IsExpression.mono (h : IsExpression fuel least room w e) {least' room' : Nat}
    (hleast : least ≤ least') (hroom : room ≤ room') : IsExpression fuel least' room' w e :=
  ⟨h.starts, fun depth hdepth t hends =>
    (h.reads depth (Nat.le_trans hleast hdepth) t hends).mono fun _ hp => hp.mono hroom⟩

theorem IsExpression.readsPhrase (h : IsExpression fuel least room w e) {depth : Nat}
    (hdepth : least ≤ depth) : ReadsPhrase (phrase fuel depth) room w e := by
  refine ⟨h.starts, fun c hc t => ?_⟩
  have hreads := h.reads depth hdepth (c :: t) (endsPhrase_closer hc t)
  rwa [skip_closer hc] at hreads

/-- What is read as an operand is an expression. -/
theorem isExpression_operand (hskip : ∀ t, skip (w ++ t) = w ++ t)
    (h : ∀ self t, EndsOperand t → Reads (unary fuel self) (w ++ t) (fun p => p.Means room e) (skip t)) :
    IsExpression fuel 1 room w e := by
  refine ⟨hskip, fun depth hdepth t hends => ?_⟩
  obtain ⟨depth, rfl⟩ : ∃ n, depth = n + 1 := ⟨depth - 1, by omega⟩
  exact hends.reads_phrase (reads_binary_operand (h _ t hends.toEndsOperand) hends.operator)

/-- The shortest text of a double that is not negative. -/
theorem isExpression_shortestText {bits : Nat} (h : bits < Double.infinityBits) :
    IsExpression fuel 1 12 (Numeral.shortestText (Double.ofBits bits))
      (.number nowhere (Float.ofBits (UInt64.ofNat bits))) := by
  obtain ⟨whole, fraction, hpositional, hbits⟩ := Numeral.bits?_shortestText h
  refine isExpression_operand (fun t => ?_) fun _ _ hends => hends.reads_number hpositional hbits
  obtain ⟨c, r, hcons, hdigit⟩ := hpositional.cons
  rw [hcons, List.cons_append]
  exact skip_cons_of_isIdentifierChar (by simp [Text.isIdentifierChar, Char.isAlphanum, hdigit]) _

/-! ## Steps -/

/-- What may stand in front of the digits of a step. -/
inductive StepSign where
  | missing
  | plus
  | minus
  deriving DecidableEq, Repr

namespace StepSign

/-- The sign as it is written. -/
def chars : StepSign → Text
  | missing => []
  | plus => ['+']
  | minus => ['-']

/-- A number with the sign in front of it. -/
def expression (sign : StepSign) (x : Float) : Expression :=
  match sign with
  | missing => .number nowhere x
  | plus => .unary nowhere .plus (.number nowhere x)
  | minus => .unary nowhere .negate (.number nowhere x)

end StepSign

/-- An operator in front of an operand, and perhaps a gap between them. -/
theorem EndsOperand.reads_prefixed (h : EndsOperand t) {c : Char} {operator : UnaryOperator} {gap : Text}
    (hscan : ∀ r, Token.unaryOperator? (c :: r) = some (operator, 1))
    (hgap : skip (gap ++ (w ++ t)) = w ++ t) (hoperand : Token.unaryOperator? (w ++ t) = none)
    (hprimary : Reads (primary fuel self) (w ++ t) (fun p => p.Means room e) (skip t))
    (hfuel : 0 < fuel) :
    Reads (unary fuel self) (c :: (gap ++ w) ++ t)
      (fun p => p.Means (room + 12) (.unary nowhere operator e)) (skip t) := by
  have htoken : Reads (token Token.unaryOperator?) ([c] ++ (gap ++ (w ++ t))) (· = operator)
      (skip (gap ++ (w ++ t))) := reads_token (hscan _)
  rw [hgap] at htoken
  have hfirst : Reads operatorBefore (c :: (gap ++ w) ++ t) (fun found => found.2 = operator) (w ++ t) := by
    rw [List.cons_append, List.append_assoc]
    refine (Reads.bind (reads_place fun _ => trivial) fun start _ => ?_).part
    exact htoken.bind fun _ hoperator => reads_pure hoperator
  -- one operator and no more, as the operand begins with none
  have hall : ReadsAll operatorBefore (fun (o : UnaryOperator) found => found.2 = o)
      (c :: (gap ++ w) ++ t) [operator] (w ++ t) :=
    .cons hfirst (.nil (fails_operatorBefore hoperand))
  have hsuffixed : Reads (suffixed fuel self) (w ++ t) (fun p => p.Means room e) (skip t) := by
    refine (hprimary.bind fun operand hoperand => ?_).part
    exact reads_iterate_stop (fails_suffix h.suffix operand) hoperand
  refine ((hall.many hfuel).bind fun operators hoperators => ?_).part
  obtain ⟨found, rest, rfl, hnone, rfl⟩ := List.forall₂_cons_left_iff.1 hoperators
  obtain rfl := List.forall₂_nil_left_iff.1 hnone
  exact hsuffixed.bind fun operand hoperand => reads_pure (hoperand.unary found.1 found.2)

theorem skip_gap_append {gap : Text} (hgap : ∀ c ∈ gap, isGap c = true) (t : Text) :
    skip (gap ++ t) = skip t := by
  induction gap with
  | nil => rfl
  | cons c gap ih =>
    rw [List.cons_append, skip_cons_of_isGap (hgap c (by simp))]
    exact ih fun d hd => hgap d (by simp [hd])

/-- A decimal with a sign in front of it, and perhaps a gap behind the sign. -/
theorem StepSign.isExpression (sign : StepSign) (l : Literal) {gap : Text}
    (hgap : ∀ c ∈ gap, isGap c = true) (hmissing : sign = .missing → gap = []) (hfuel : 0 < fuel) :
    IsExpression fuel 1 24 (sign.chars ++ (gap ++ l.source)) (sign.expression l.value) := by
  have hskip (t : Text) : skip (gap ++ (l.source ++ t)) = l.source ++ t := by
    rw [skip_gap_append hgap, l.skip_source]
  -- a sign is read as an operator in front of the literal
  have hreads {self : Reader Phrase} {t : Text} (h : EndsOperand t) {c : Char} {operator : UnaryOperator}
      (hscan : ∀ r, Token.unaryOperator? (c :: r) = some (operator, 1)) :
      Reads (unary fuel self) (c :: (gap ++ l.source) ++ t)
        (fun p => p.Means 24 (.unary nowhere operator (.number nowhere l.value))) (skip t) :=
    h.reads_prefixed hscan (hskip t) (l.unaryOperator?_source t) (l.reads_primary h.word h.point) hfuel
  cases sign with
  | missing =>
    obtain rfl := hmissing rfl
    refine (isExpression_operand l.skip_source fun self t h => ?_).mono (Nat.le_refl 1)
      (show 12 ≤ 24 by decide)
    exact h.reads_unary (l.unaryOperator?_source t) (l.reads_primary h.word h.point)
  | plus =>
    exact isExpression_operand (fun t => skip_cons_of_token rfl (by decide) _)
      fun self t h => hreads h fun r => rfl
  | minus =>
    exact isExpression_operand (fun t => skip_cons_of_token rfl (by decide) _)
      fun self t h => hreads h fun r => rfl

/-! ## Updates -/

/-- The update of a counting loop. -/
def countingUpdate (operator : AssignmentOperator) (name : Text) (step : Expression) : Expression :=
  .assign nowhere operator (.identifier nowhere name) step

/-- A name that is assigned a value. -/
theorem reads_countingUpdate {name written : Text} {depth : Nat} (hname : IsIdentifier name)
    (operator : AssignmentOperator) (h : ReadsPhrase (phrase fuel depth) room written e)
    (hroom : 12 ≤ room) :
    ReadsPhrase (phrase fuel (depth + 1)) (room + 12)
      (name ++ ' ' :: (operator.sign ++ ' ' :: written)) (countingUpdate operator name e) := by
  refine ⟨fun t => ?_, fun c hc t => ?_⟩
  · rw [List.append_assoc]
    exact hname.skip_append _
  · have hends := endsBinary_assignment operator (written ++ c :: t)
    have hunary : Reads (unary fuel (phrase fuel depth)) _ _ _ :=
      hends.toEndsOperand.reads_identifier hname
    -- the target is followed by the sign of the assignment, so it is read alone
    have hchoice : (skip (' ' :: (operator.sign ++ ' ' :: (written ++ c :: t)))).head? ≠ some '?' := by
      rw [skip_assignment]
      cases operator <;> simp [AssignmentOperator.sign, text]
    have htarget := (reads_binary_operand hunary hends.operator).conditional hchoice
    rw [skip_assignment] at htarget
    have hvalue := h.reads c hc t
    rw [← h.skip (c :: t)] at hvalue
    rw [List.append_assoc, List.cons_append, List.append_assoc, List.cons_append]
    exact htarget.assign operator hvalue fun _ _ hp hq => (hp.mono hroom).assign rfl hq operator

/-! ## Tests -/

/-- The number zero as a script writes it. -/
def zeroLiteral : Expression := .number nowhere (Float.ofBits (UInt64.ofNat 0))

/-- The test of a loop whose direction is decided in every round. -/
def directedTest (step up down : Expression) : Expression :=
  .conditional nowhere (.binary nowhere .greater step zeroLiteral) up down

/-- A phrase in parentheses that is compared with zero. -/
theorem IsExpression.reads_isPositive {depth : Nat} (h : IsExpression fuel least room step e)
    (hdepth : least ≤ depth) (hroom : 12 ≤ room) (hfuel : 0 < fuel) (hends : EndsBinary t) :
    Reads (binary fuel (phrase fuel depth)) ('(' :: (step ++ text ") > 0") ++ t)
      (fun p => p.Means (room + 24) (.binary nowhere .greater e zeroLiteral)) (skip t) := by
  have hspace : EndsOperand (text " > 0" ++ t) := endsOperand_space rfl (by decide) _
  have hskip : skip (text " > 0" ++ t) = BinaryOperator.greater.sign ++ ' ' :: '0' :: t := by
    show skip (' ' :: '>' :: ' ' :: '0' :: t) = _
    rw [skip_space, skip_cons_of_token rfl (by decide)]
    rfl
  have hinside := (h.readsPhrase hdepth).reads ')' (by decide) (text " > 0" ++ t)
  rw [← h.starts] at hinside
  have hleft : Reads (unary fuel (phrase fuel depth)) _ _ _ := hspace.reads_group hinside
  rw [hskip] at hleft
  have hzero : Numeral.IsPositional ['0'] ['0'] [] := ⟨by simp, by simp, by simp, .inl ⟨rfl, rfl⟩⟩
  have hright : Reads (unary fuel (phrase fuel depth)) (skip ('0' :: t))
      (fun p => p.Means 12 zeroLiteral) (skip t) := by
    rw [skip_cons_of_token rfl (by decide)]
    exact hends.toEndsOperand.reads_number hzero (show Numeral.bits? ['0'] = some 0 from rfl)
  have htext : '(' :: (step ++ text ") > 0") ++ t = '(' :: (step ++ [')']) ++ (text " > 0" ++ t) := by
    simp [text]
  rw [htext]
  refine (reads_binary .greater hleft hright hends.operator hfuel).mono fun p hp => hp.mono ?_
  omega

/-- The sign of the step chooses between two tests. -/
theorem IsExpression.reads_test (hstep : IsExpression fuel least room step e)
    (hup : IsExpression fuel least most up f) (hdown : IsExpression fuel least most down g)
    (hroom : 12 ≤ room) (hfuel : 0 < fuel) :
    IsExpression fuel (least + 1) (max (room + 24) most + 12)
      ('(' :: step ++ text ") > 0 ? " ++ up ++ text " : " ++ down) (directedTest e f g) := by
  refine ⟨fun t => skip_cons_of_token rfl (by decide) _, fun depth hdepth t hends => ?_⟩
  -- the branches lie one level deeper than the choice
  obtain ⟨depth, rfl⟩ : ∃ n, depth = n + 1 := ⟨depth - 1, by omega⟩
  have hcolon := endsPhrase_space (c := ':') (by decide) (' ' :: (down ++ t))
  have hyes := hup.reads depth (by omega) _ hcolon
  rw [skip_space, skip_cons_of_token rfl (by decide)] at hyes
  have hno := hdown.reads depth (by omega) t hends
  have htest := hstep.reads_isPositive (by omega : least ≤ depth) hroom hfuel
    (endsBinary_space (c := '?') rfl (by decide) (by decide) (' ' :: (up ++ ' ' :: ':' :: ' ' :: (down ++ t))))
  rw [skip_space, skip_cons_of_token rfl (by decide)] at htest
  have htext : '(' :: step ++ text ") > 0 ? " ++ up ++ text " : " ++ down ++ t =
      '(' :: (step ++ text ") > 0") ++ ' ' :: '?' :: ' ' :: (up ++ ' ' :: ':' :: ' ' :: (down ++ t)) := by
    simp [text]
  rw [htext]
  rw [← hup.starts, ← skip_space] at hyes
  rw [← hdown.starts, ← skip_space] at hno
  refine (htest.choice hyes hno fun test yes no hp hq hr => ?_).assignment hends.assignment
  exact (hp.mono (by omega)).conditional (hq.mono (by omega)) (hr.mono (by omega))

end

end Pseudocode.Script
