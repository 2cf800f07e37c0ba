import Pseudocode.Proofs.OperandTokens
import Pseudocode.Proofs.OutlineTranslation
import Pseudocode.Proofs.SteppedLoops
import Pseudocode.Report.Location

/-!
# Literal steps

The translation takes a step for a number if it is a decimal with a sign in front of it, blanks left
aside, and then the header of the loop says in which direction it goes. The header of any other step
looks at the sign of the step in every round. A step that is a decimal could be put into that header,
too, and the loop would do the same.

* `LiteralStep.loopClauses_source`    the clauses of a loop with a literal step
* `loopClauses_of_double?_eq_none`    the clauses of a loop with any other step
* `LiteralStep.reads_forLoop`         the header is read as the loop whose direction is fixed
* `LiteralStep.reads_directedLoop`    the other header is read as the loop that looks at the step
* `LiteralStep.loops_agree`           the two loops do the same
-/

namespace Pseudocode

namespace Double

/-- The sign bit makes the opposite of a number. -/
theorem ofBits_add_signBit {bits : Nat} (h : bits < 2 ^ 63) :
    ofBits (bits + signBit true) = (ofBits bits).negate := by
  have hfield : (bits + 2 ^ 63) / 2 ^ 52 % 2 ^ 11 = bits / 2 ^ 52 % 2 ^ 11 := by omega
  have hfraction : (bits + 2 ^ 63) % 2 ^ 52 = bits % 2 ^ 52 := by omega
  have hnegative : decide (2 ^ 63 ≤ bits + 2 ^ 63) = true := by simp
  have hpositive : decide (2 ^ 63 ≤ bits) = false := by simpa using h
  show ofBits (bits + 2 ^ 63) = _
  unfold ofBits
  simp only [hfield, hfraction, hnegative, hpositive]
  split
  · split <;> rfl
  · split <;> rfl

theorem isBelowZero_negate_ofBits {bits : Nat} (hpos : 0 < bits) (h : bits < infinityBits) :
    (ofBits bits).negate.isBelowZero = true := by
  obtain ⟨m, q, hdouble, hregular, -⟩ := ofBits_of_lt hpos h
  rw [hdouble]
  simp [negate, isBelowZero, hregular.pos.ne']

theorem negate_negate (x : Double) : x.negate.negate = x := by
  cases x <;> simp [negate]

end Double

namespace Script

/-! ## Decimals -/

theorem toNat_lt_of_isDecimalChar {c : Char} (h : Numeral.isDecimalChar c = true) : c.toNat < 128 := by
  simp only [Numeral.isDecimalChar, Bool.or_eq_true, decide_eq_true_eq] at h
  rcases h with ((((hdigit | rfl) | rfl) | rfl) | rfl) | rfl
  · exact toNat_lt_of_isAlphanum (by simp [Char.isAlphanum, hdigit])
  all_goals decide

theorem isBlank_of_isDecimalChar {c : Char} (h : Numeral.isDecimalChar c = true) :
    Text.isBlank c = false :=
  forall_ascii (p := fun c => Numeral.isDecimalChar c = true → Text.isBlank c = false)
    (by decide +kernel) (toNat_lt_of_isDecimalChar h) h

theorem isBlank_of_isGap {c : Char} (h : isGap c = true) : Text.isBlank c = true := by
  simp only [isGap, Bool.or_eq_true, decide_eq_true_eq] at h
  rcases h with ((rfl | rfl) | rfl) | rfl <;> rfl

/-- The signs and words of a decimal mean nothing to a pseudocode program. -/
theorem isKept_of_isDecimalChar {t : Text}
    (h : ∀ c ∈ t, Numeral.isDecimalChar c = true ∨ isGap c = true) :
    ∀ token ∈ Expression.tokens t, token.IsKept := by
  have hchar {c : Char} (hc : Numeral.isDecimalChar c = true ∨ isGap c = true) :
      c.isDigit = true ∨ c ∈ ['.', 'e', 'E', '+', '-', ' ', '\t', '\r', '\n'] := by
    simp only [Numeral.isDecimalChar, isGap, Bool.or_eq_true, decide_eq_true_eq] at hc
    simp only [List.mem_cons, List.not_mem_nil, or_false]
    tauto
  fun_induction Expression.tokens t with
  | case1 => simp
  | case2 c r hquote ih =>
    -- a quotation mark is none of the characters
    simp only [Expression.isQuote, Bool.or_eq_true, decide_eq_true_eq] at hquote
    have hc := hchar (h c (by simp))
    rcases hquote with rfl | rfl <;> exact absurd hc (by decide)
  | case3 c r hquote hword ih =>
    -- a word begins with the letter of an exponent
    have hletter : c = 'e' ∨ c = 'E' := by
      rcases hchar (h c (by simp)) with hdigit | hmem
      · rw [Outline.isWordStart_of_isDigit hdigit] at hword
        cases hword
      · fin_cases hmem <;> first | exact .inl rfl | exact .inr rfl | exact absurd hword (by decide)
    intro token htoken
    rcases List.mem_cons.1 htoken with rfl | htoken
    · show Expression.wordOperator? (c :: r.takeWhile Text.isNameChar) = none
      rcases hletter with rfl | rfl <;> simp [Expression.wordOperator?, Text.toLower, text]
    · exact ih (fun d hd => h d (List.mem_cons_of_mem _ ((List.dropWhile_suffix _).subset hd))) token htoken
  | case4 c r hquote hword ih =>
    intro token htoken
    rcases List.mem_cons.1 htoken with rfl | htoken
    · show c ∉ ['≠', '≤', '≥', '<', '=']
      intro hmem
      have hc := hchar (h c (by simp))
      fin_cases hmem <;> exact absurd hc (by decide)
    · exact ih (fun d hd => h d (List.mem_cons_of_mem _ hd)) token htoken

namespace Literal

variable (l : Literal)

/-- The bit pattern of the double that is nearest to the decimal. -/
def bits (l : Literal) : Nat := Decimal.nearestBits l.scientific.digits l.scientific.exponent

theorem isDecimalChar_source : ∀ c ∈ l.source, Numeral.isDecimalChar c = true := by
  have hdigit {c : Char} (h : c.isDigit = true) : Numeral.isDecimalChar c = true := by
    simp [Numeral.isDecimalChar, h]
  have hexponent : ∀ c ∈ l.exponentText, Numeral.isDecimalChar c = true := by
    unfold exponentText
    cases l.exponent with
    | none => simp
    | some e =>
      intro c hc
      rcases List.mem_cons.1 hc with rfl | hc
      · unfold Exponent.mark
        split <;> decide
      rcases List.mem_append.1 hc with hc | hc
      · unfold Exponent.signText at hc
        split at hc
        · cases hc
        · split at hc <;> (obtain rfl := List.mem_singleton.1 hc; decide)
      · exact hdigit (e.isDigit c hc)
  intro c hc
  rcases List.mem_append.1 hc with hc | hc
  · exact hdigit (l.whole_isDigit c hc)
  rcases List.mem_append.1 hc with hc | hc
  · unfold pointText at hc
    split at hc
    · cases hc
    · next digits hfraction =>
      rcases List.mem_cons.1 hc with rfl | hc
      · decide
      · exact hdigit (l.isDigit c (by simp [hfraction, hc]))
  · exact hexponent c hc

theorem isTrimmed_source : Text.IsTrimmed l.source := by
  obtain ⟨c, r, hcons, -⟩ := l.head_source
  refine ⟨by simp [hcons], fun c hc => ?_, fun c hc => ?_⟩
  · exact isBlank_of_isDecimalChar (l.isDecimalChar_source c (List.mem_of_mem_head? hc))
  · exact isBlank_of_isDecimalChar (l.isDecimalChar_source c (List.mem_of_mem_getLast? hc))

end Literal

/-! ## Steps that are decimals -/

/-- A step that is a decimal with a sign in front of it, and perhaps a gap behind the sign. -/
structure LiteralStep where
  sign : StepSign
  gap : Text
  decimal : Literal
  isGap : ∀ c ∈ gap, isGap c = true
  missing : sign = .missing → gap = []

namespace LiteralStep

variable (s : LiteralStep)

/-- The step as it is written. -/
def source (s : LiteralStep) : Text := s.sign.chars ++ (s.gap ++ s.decimal.source)

theorem value_source : Translation.value s.source = s.source := by
  refine Expression.rewrite_eq ?_ (isKept_of_isDecimalChar fun c hc => ?_) .value
  · have hdecimal := s.decimal.isTrimmed_source
    unfold source
    cases hsign : s.sign with
    | missing => rwa [s.missing hsign]
    | plus => exact .append (w := ['+']) (by decide) s.gap hdecimal
    | minus => exact .append (w := ['-']) (by decide) s.gap hdecimal
  -- every character is a sign, a gap or one of the decimal
  · rcases List.mem_append.1 hc with hc | hc
    · left
      cases hsign : s.sign <;> rw [hsign] at hc
      · cases hc
      · obtain rfl := List.mem_singleton.1 hc
        rfl
      · obtain rfl := List.mem_singleton.1 hc
        rfl
    · rcases List.mem_append.1 hc with hc | hc
      · exact .inr (s.isGap c hc)
      · exact .inl (s.decimal.isDecimalChar_source c hc)

theorem filter_source :
    (s.source.filter fun c => !Text.isBlank c) = s.sign.chars ++ s.decimal.source := by
  have hsign : (s.sign.chars.filter fun c => !Text.isBlank c) = s.sign.chars := by
    cases s.sign <;> rfl
  have hgap : (s.gap.filter fun c => !Text.isBlank c) = [] :=
    List.filter_eq_nil_iff.2 fun c hc => by simp [isBlank_of_isGap (s.isGap c hc)]
  have hdecimal : (s.decimal.source.filter fun c => !Text.isBlank c) = s.decimal.source :=
    List.filter_eq_self.2 fun c hc => by
      simp [isBlank_of_isDecimalChar (s.decimal.isDecimalChar_source c hc)]
  rw [source, List.filter_append, List.filter_append, hsign, hgap, hdecimal, List.nil_append]

/-- Without the gap, a step is read as a number by the translation. -/
theorem double?_source : Numeral.double? (s.source.filter fun c => !Text.isBlank c) =
    some (if s.sign = .minus then (Double.ofBits s.decimal.bits).negate
      else Double.ofBits s.decimal.bits) := by
  -- the sign bit is free, so a minus sign only sets it
  have hbits : s.decimal.bits < 2 ^ 63 :=
    Nat.lt_of_le_of_lt (Decimal.nearestBits_le _ _) (by decide)
  rw [s.filter_source]
  unfold Numeral.double? Numeral.bits?
  cases s.sign with
  | missing =>
    simp only [StepSign.chars, List.nil_append, s.decimal.splitSign_source, s.decimal.decimal?_source,
      Option.map_some]
    rfl
  | plus =>
    simp only [StepSign.chars, List.singleton_append, Numeral.splitSign, s.decimal.decimal?_source,
      Option.map_some]
    rfl
  | minus =>
    simp only [StepSign.chars, List.singleton_append, Numeral.splitSign, s.decimal.decimal?_source,
      Option.map_some, if_true]
    exact congrArg some (Double.ofBits_add_signBit hbits)

/-- The clauses of a loop with a literal step. -/
theorem loopClauses_source (hpos : 0 < s.decimal.bits) (hfinite : s.decimal.bits < Double.infinityBits)
    (name stop : Text) : Translation.loopClauses name stop (some s.source) =
      (name ++ text (if s.sign = .minus then " >= " else " <= ") ++ stop,
        name ++ ' ' :: (s.sign.operator.sign ++ ' ' ::
          Numeral.shortestText (Double.ofBits s.decimal.bits))) := by
  simp only [Translation.loopClauses, s.double?_source]
  have habove : (Double.ofBits s.decimal.bits).isBelowZero = false :=
    Double.isBelowZero_ofBits (Nat.lt_trans hfinite (by decide))
  have hbelow := Double.isBelowZero_negate_ofBits hpos hfinite
  cases s.sign with
  | missing | plus => simp [habove, StepSign.operator, AssignmentOperator.sign, text]
  | minus => simp [hbelow, Double.negate_negate, StepSign.operator, AssignmentOperator.sign, text]

end LiteralStep

end Script

/-! ## Headers -/

namespace Translation

/-- The header of a counting loop, with the clauses for its test and its update. -/
def loopHeader (name start : Text) (clauses : Text × Text) : Text :=
  text "for (let " ++ name ++ text " = " ++ start ++ text "; " ++ clauses.1 ++ text "; " ++
    clauses.2 ++ text ") \x7b"

theorem forLoop_eq_loopHeader (name start stop : Text) (step : Option Text) :
    forLoop name start stop step =
      loopHeader name (value start) (loopClauses name (value stop) step) := rfl

/-- The clauses of a loop that looks at the sign of its step in every round. -/
def directedClauses (name stop step : Text) : Text × Text :=
  ('(' :: step ++ text ") > 0 ? " ++ name ++ text " <= " ++ stop ++ text " : " ++ name ++
    text " >= " ++ stop, name ++ text " += " ++ step)

/-- A step that is not taken for a number is looked at in every round. -/
theorem loopClauses_of_double?_eq_none {name stop step : Text}
    (h : Numeral.double? (step.filter fun c => !Text.isBlank c) = none) :
    loopClauses name stop (some step) = directedClauses name stop (value step) := by
  simp only [loopClauses, h]
  rfl

end Translation

namespace Script

open Reader Grammar

/-- A loop over a variable of its own. -/
def countingLoop (name : Text) (first test update : Expression) (body : Command) : Command :=
  .forLoop nowhere (some (.declaration .let [⟨nowhere, name, some first⟩])) (some test) (some update) body

theorem reads_loopHeader {fuel room : Nat} {self : Reader Sentence} {inLoop : Bool}
    {name start inside rest : Text} {clauses : Text × Text} {first test update : Expression} {body : Command}
    (hname : IsIdentifier name) (hfirst : ReadsPhrase (expression fuel) room start first)
    (htest : ReadsPhrase (expression fuel) room clauses.1 test)
    (hupdate : ReadsPhrase (expression fuel) room clauses.2 update) (hroom : room ≤ Program.maxDepth)
    (hbody : Reads self ('\x7b' :: inside) (fun s => Statement.Becomes true s body) rest) :
    Reads (sentence fuel self) (Translation.loopHeader name start clauses ++ inside)
      (fun s => Statement.Becomes inLoop s (countingLoop name first test update body)) rest := by
  have htext : Translation.loopHeader name start clauses ++ inside =
      text "for" ++ ' ' :: '(' :: (text "let" ++ ' ' :: (name ++ ' ' :: '=' :: ' ' ::
        (start ++ ';' :: ' ' :: (clauses.1 ++ ';' :: ' ' :: (clauses.2 ++ ')' :: ' ' :: '\x7b' :: inside))))) := by
    simp [Translation.loopHeader, text]
  rw [← skip_cons_of_token (c := '\x7b') rfl (by decide), ← skip_space] at hbody
  rw [htext]
  exact reads_forLoop hname hfirst htest hupdate hroom hbody

namespace LiteralStep

/-- The loop whose direction the step fixes. -/
def command (s : LiteralStep) (name : Text) (first up down : Expression) (body : Command) : Command :=
  countingLoop name first (if s.sign = .minus then down else up)
    (countingUpdate s.sign.operator name (.number nowhere s.decimal.value)) body

/-- The loop that looks at the sign of the step in every round. -/
def directedCommand (s : LiteralStep) (name : Text) (first up down : Expression) (body : Command) :
    Command :=
  countingLoop name first (directedTest (s.sign.expression s.decimal.value) up down)
    (countingUpdate .add name (s.sign.expression s.decimal.value)) body

variable {fuel least room : Nat} {self : Reader Sentence} {inLoop : Bool}
  {name start stop inside rest : Text} {first up down : Expression} {body : Command}

/-- The header of a loop with a literal step is read as the loop whose direction is fixed. -/
theorem reads_forLoop (s : LiteralStep) (hpos : 0 < s.decimal.bits)
    (hfinite : s.decimal.bits < Double.infinityBits) (hname : IsIdentifier name)
    (hfirst : IsExpression fuel least room (Translation.value start) first)
    (hup : IsExpression fuel least room (name ++ text " <= " ++ Translation.value stop) up)
    (hdown : IsExpression fuel least room (name ++ text " >= " ++ Translation.value stop) down)
    (hbody : Reads self ('\x7b' :: inside) (fun c => Statement.Becomes true c body) rest)
    (hfuel : least < fuel) (hleast : 0 < least) (hroom : max room 48 + 12 ≤ Program.maxDepth) :
    Reads (sentence fuel self) (Translation.forLoop name start stop (some s.source) ++ inside)
      (fun c => Statement.Becomes inLoop c (s.command name first up down body)) rest := by
  rw [Translation.forLoop_eq_loopHeader, s.loopClauses_source hpos hfinite]
  -- the sign of the step is in the operators, its amount in the update
  have hupdate : ReadsPhrase (expression fuel) 24
      (name ++ ' ' :: (s.sign.operator.sign ++ ' ' :: Numeral.shortestText (Double.ofBits s.decimal.bits)))
      (countingUpdate s.sign.operator name (.number nowhere s.decimal.value)) := by
    obtain ⟨depth, rfl⟩ : ∃ n, fuel = n + 2 := ⟨fuel - 2, by omega⟩
    exact reads_countingUpdate hname s.sign.operator
      ((isExpression_shortestText hfinite).readsPhrase (Nat.le_add_left 1 depth)) (Nat.le_refl 12)
  have htest : IsExpression fuel least room
      (name ++ text (if s.sign = .minus then " >= " else " <= ") ++ Translation.value stop)
      (if s.sign = .minus then down else up) := by
    split
    · exact hdown
    · exact hup
  have hwhole {w : Text} {e : Expression} (h : IsExpression fuel least room w e) :
      ReadsPhrase (expression fuel) (max room 48 + 12) w e :=
    (h.readsPhrase (Nat.le_of_lt hfuel)).mono (by omega)
  exact reads_loopHeader hname (hwhole hfirst) (hwhole htest) (hupdate.mono (by omega)) hroom hbody

/-- The header that looks at the step in every round is read as the loop that does. -/
theorem reads_directedLoop (s : LiteralStep) (hname : IsIdentifier name)
    (hfirst : IsExpression fuel least room (Translation.value start) first)
    (hup : IsExpression fuel least room (name ++ text " <= " ++ Translation.value stop) up)
    (hdown : IsExpression fuel least room (name ++ text " >= " ++ Translation.value stop) down)
    (hbody : Reads self ('\x7b' :: inside) (fun c => Statement.Becomes true c body) rest)
    (hfuel : least < fuel) (hleast : 0 < least) (hroom : max room 48 + 12 ≤ Program.maxDepth) :
    Reads (sentence fuel self) (Translation.loopHeader name (Translation.value start)
        (Translation.directedClauses name (Translation.value stop) (Translation.value s.source)) ++ inside)
      (fun c => Statement.Becomes inLoop c (s.directedCommand name first up down body)) rest := by
  have hstep : IsExpression fuel 1 24 s.source (s.sign.expression s.decimal.value) :=
    s.sign.isExpression s.decimal s.isGap s.missing (by omega)
  -- the step is written twice, in the test and in the update
  have htest := (hstep.mono hleast (Nat.le_refl 24)).reads_test hup hdown (by decide) (by omega)
  have hupdate : ReadsPhrase (expression fuel) 36
      (name ++ ' ' :: (AssignmentOperator.add.sign ++ ' ' :: s.source))
      (countingUpdate .add name (s.sign.expression s.decimal.value)) := by
    obtain ⟨depth, rfl⟩ : ∃ n, fuel = n + 2 := ⟨fuel - 2, by omega⟩
    exact reads_countingUpdate hname .add (hstep.readsPhrase (Nat.le_add_left 1 depth)) (by decide)
  rw [s.value_source]
  have htext : Translation.directedClauses name (Translation.value stop) s.source =
      ('(' :: s.source ++ text ") > 0 ? " ++ (name ++ text " <= " ++ Translation.value stop) ++
        text " : " ++ (name ++ text " >= " ++ Translation.value stop),
      name ++ ' ' :: (AssignmentOperator.add.sign ++ ' ' :: s.source)) := by
    simp [Translation.directedClauses, AssignmentOperator.sign, text]
  rw [htext]
  refine reads_loopHeader hname ((hfirst.readsPhrase (Nat.le_of_lt hfuel)).mono (by omega))
    ((htest.readsPhrase hfuel).mono (by omega)) (hupdate.mono (by omega)) hroom hbody

/-- A loop with a literal step and the loop that looks at the sign of the step in every round begin the
    same rounds on the same machines, so with the same value of the variable, and they end in the same
    way. A negative step is subtracted by the one and added by the other, which is the same unless the
    variable holds a text when it is advanced. -/
theorem loops_agree (s : LiteralStep) (hpos : 0 < s.decimal.bits)
    (hfinite : s.decimal.bits < Double.infinityBits) (hname : IsIdentifier name)
    (hfirst : IsExpression fuel least room (Translation.value start) first)
    (hup : IsExpression fuel least room (name ++ text " <= " ++ Translation.value stop) up)
    (hdown : IsExpression fuel least room (name ++ text " >= " ++ Translation.value stop) down)
    (hbody : Reads self ('\x7b' :: inside) (fun c => Statement.Becomes true c body) rest)
    (hfuel : least < fuel) (hleast : 0 < least) (hroom : max room 48 + 12 ≤ Program.maxDepth) :
    Reads (sentence fuel self) (Translation.forLoop name start stop (some s.source) ++ inside)
        (fun c => Statement.Becomes inLoop c (s.command name first up down body)) rest ∧
      Reads (sentence fuel self) (Translation.loopHeader name (Translation.value start)
          (Translation.directedClauses name (Translation.value stop) (Translation.value s.source)) ++ inside)
        (fun c => Statement.Becomes inLoop c (s.directedCommand name first up down body)) rest ∧
      ∀ scope m,
        (s.sign = .minus → ∀ inner due, (s.command name first up down body).AtUpdate scope m inner due →
          ¬due.HoldsText inner name) →
        (∀ inner m', (s.command name first up down body).AtRound scope m inner m' ↔
            (s.directedCommand name first up down body).AtRound scope m inner m') ∧
          Agree (fun n => run n scope (s.command name first up down body))
            (fun n => run n scope (s.directedCommand name first up down body)) m := by
  refine ⟨s.reads_forLoop hpos hfinite hname hfirst hup hdown hbody hfuel hleast hroom,
    s.reads_directedLoop hname hfirst hup hdown hbody hfuel hleast hroom, fun scope m hnumber => ?_⟩
  have hpositive : Double.IsPositive s.decimal.value := Double.isPositive_ofBits hpos hfinite
  refine (Command.agree_of_rounds fun inner m' hround => ?_).symm
  -- where a round begins, its update may be due, and then the variable holds no text
  refine agreeIn_literalLoop s.sign name up down body hpositive fun hminus due hdue => ?_
  exact hnumber hminus inner due ⟨m', hround, hdue⟩

/-- The step of a countdown. -/
def countdown : LiteralStep :=
  ⟨.minus, [' '], ⟨['1'], none, none, by simp, by simp⟩, by simp [Script.isGap], by simp⟩

/-- A counter that counts down from one to one. -/
def countdownFromOne : Outline.Counter := ⟨.i, .digits .one, .digits .one, none⟩

/-- The loop of the counter with nothing in it. -/
def countdownCommand : Command :=
  countdown.command (text "i") (.number nowhere countdown.decimal.value)
    (countdownFromOne.compare .lessEqual) (countdownFromOne.compare .greaterEqual) (.block [])

/-- The value is a number. -/
def isNumber : Value → Bool
  | .number _ => true
  | _ => false

/-- A machine on which nothing has been run. -/
def freshMachine : Machine := .start (.start 1000 .cumulative) 5 [] none

/-- In the only round of the countdown the variable holds a number. -/
theorem not_holdsText_countdown {inner : Scope} {due : Machine}
    (h : countdownCommand.AtUpdate Machine.globalScope freshMachine inner due) :
    ¬due.HoldsText inner (text "i") := by
  let begin : Nat → Eval Scope := beginLoop Machine.globalScope
    (some (.declaration .let [⟨nowhere, text "i", some (.number nowhere countdown.decimal.value)⟩]))
  let loop : Scope → Loop := literalLoop .minus (text "i") (countdownFromOne.compare .lessEqual)
    (countdownFromOne.compare .greaterEqual) (.block []) countdown.decimal.value
  obtain ⟨m, ⟨first, hfirst, hreach⟩, hdue⟩ := h
  have hbegin : Stabilizes begin := stabilizes_beginLoop _ _
  have happroach (inner : Scope) : Stabilizes (loop inner).approach := (loop inner).stabilizes_approach
  -- the second round ends before its update
  have hsecond {due m due' : Machine} (hdue : EndsWith (loop inner).approach first (.ok none due))
      (hadvance : EndsWith (loop inner).advance due (.ok () m))
      (hdue' : EndsWith (loop inner).approach m (.ok none due')) : False := by
    have hlater (inner : Scope) : Stabilizes fun n => (loop inner).advance n >>= fun _ =>
        (loop inner).approach n := (loop inner).stabilizes_advance.bind fun _ => happroach inner
    have hboth (inner : Scope) : Stabilizes fun n => (loop inner).approach n >>= fun _ =>
        (loop inner).advance n >>= fun _ => (loop inner).approach n :=
      (happroach inner).bind fun _ => hlater inner
    have hrounds := hfirst.bind hbegin hboth (hdue.bind (happroach inner) (fun _ => hlater inner)
      (hadvance.bind (loop inner).stabilizes_advance (fun _ => happroach inner) hdue'))
    cases hrounds.map_eq (g := Option.isSome) (n := 20) (c := true) (hbegin.bind hboth) (by decide +kernel)
  rcases Relation.ReflTransGen.cases_head hreach with rfl | ⟨second, ⟨due', hdue', hadvance⟩, hreach⟩
  · rintro ⟨v, hv, htext⟩
    have hfind (inner : Scope) : Stabilizes fun _ => Eval.find inner (text "i") nowhere := stabilizes_const _
    have hlater (inner : Scope) : Stabilizes fun n => (loop inner).approach n >>= fun _ =>
        Eval.find inner (text "i") nowhere := (happroach inner).bind fun _ => hfind inner
    have hfound : EndsWith (fun _ => Eval.find inner (text "i") nowhere) due (.ok v due) :=
      ⟨isProper_ok v due, 0, by rw [find_eq, hv]⟩
    have hrounds := hfirst.bind hbegin hlater (hdue.bind (happroach inner) (fun _ => hfind inner) hfound)
    have hnumber := hrounds.map_eq (g := isNumber) (n := 20) (c := true) (hbegin.bind hlater)
      (by decide +kernel)
    rcases htext with hobject | ⟨t, rfl⟩
    · cases v <;> simp_all [Value.isObject, isNumber]
    · cases hnumber
  · rcases Relation.ReflTransGen.cases_head hreach with rfl | ⟨third, ⟨due'', hdue'', -⟩, -⟩
    · exact (hsecond hdue' hadvance hdue).elim
    · exact (hsecond hdue' hadvance hdue'').elim

/-- A countdown is read with both headers, and with both it does the same. -/
theorem loops_agree_countdown :
    let value := countdown.decimal.value
    let directed := countdown.directedCommand (text "i") (.number nowhere value)
      (countdownFromOne.compare .lessEqual) (countdownFromOne.compare .greaterEqual) (.block [])
    Reads (sentence 9 (statement 9 8)) (text "for (let i = 1; i >= 1; i -= 1) \x7b\x7d")
        (fun c => Statement.Becomes false c countdownCommand) [] ∧
      Reads (sentence 9 (statement 9 8))
          (text "for (let i = 1; (- 1) > 0 ? i <= 1 : i >= 1; i += - 1) \x7b\x7d")
        (fun c => Statement.Becomes false c directed) [] ∧
      (∀ inner m, countdownCommand.AtRound Machine.globalScope freshMachine inner m ↔
          directed.AtRound Machine.globalScope freshMachine inner m) ∧
        Agree (fun n => run n Machine.globalScope countdownCommand)
          (fun n => run n Machine.globalScope directed) freshMachine := by
  intro value directed
  have hkept : Translation.value (text "1") = text "1" := by decide +kernel
  have hshortest : Numeral.shortestText (Double.ofBits countdown.decimal.bits) = text "1" := by
    decide +kernel
  have hpos : 0 < countdown.decimal.bits := by decide +kernel
  have hfinite : countdown.decimal.bits < Double.infinityBits := by decide +kernel
  have hfirst : IsExpression 9 1 24 (Translation.value (text "1")) (.number nowhere value) := by
    rw [hkept, ← hshortest]
    exact (isExpression_shortestText hfinite).mono (Nat.le_refl 1) (by decide)
  have hup : IsExpression 9 1 24 (text "i" ++ text " <= " ++ Translation.value (text "1"))
      (countdownFromOne.compare .lessEqual) := by
    rw [hkept]
    exact countdownFromOne.isExpression_compare .lessEqual (by decide) ⟨_, _, rfl, rfl, by decide⟩
  have hdown : IsExpression 9 1 24 (text "i" ++ text " >= " ++ Translation.value (text "1"))
      (countdownFromOne.compare .greaterEqual) := by
    rw [hkept]
    exact countdownFromOne.isExpression_compare .greaterEqual (by decide) ⟨_, _, rfl, rfl, by decide⟩
  have hempty : ReadsBlock (statement 9 7) true (skip ['\x7d']) [] ['\x7d'] :=
    .nil (fails_statement_brace [] 7)
  have hbody : Reads (statement 9 8) (text "\x7b\x7d") (fun c => Statement.Becomes true c (.block [])) [] :=
    (reads_block hempty (Nat.zero_le 9)).mono fun _ hs => hs.becomes
  have hheader : Translation.forLoop (text "i") (text "1") (text "1") (some countdown.source) ++ text "\x7d" =
      text "for (let i = 1; i >= 1; i -= 1) \x7b\x7d" := by decide +kernel
  have hgeneral : Translation.loopHeader (text "i") (Translation.value (text "1"))
        (Translation.directedClauses (text "i") (Translation.value (text "1"))
          (Translation.value countdown.source)) ++ text "\x7d" =
      text "for (let i = 1; (- 1) > 0 ? i <= 1 : i >= 1; i += - 1) \x7b\x7d" := by decide +kernel
  rw [← hheader, ← hgeneral]
  refine (countdown.loops_agree hpos hfinite countdownFromOne.name.isIdentifier hfirst hup hdown hbody
    (by decide) (by decide) (by decide)).imp_right (And.imp_right fun hagree => ?_)
  exact hagree _ _ fun _ inner due => not_holdsText_countdown

end LiteralStep

end Script

namespace Translation

open Script

/-- What a script shows that consists of one loop. -/
def shownBy (header inside : Text) : Option (List Interaction) :=
  let machine := Machine.start (.start 1000 .cumulative) 5 [] none
  (Program.parse (wrapped (header ++ inside))).toOption.map fun program => (program.run machine).log

/-- With the step zero, the loop with the literal step goes up and the other one goes down. A negative
    step is subtracted from a text by the one and put behind it by the other. A blank between digits is
    left out of a literal step, but a script that has it there cannot be read. -/
theorem directions_differ :
    let general (start stop step : Text) :=
      loopHeader (text "i") (value start) (directedClauses (text "i") (value stop) (value step))
    (shownBy (forLoop (text "i") (text "1") (text "3") (some (text "0"))) (text " print(i); break; \x7d") =
        some [.print (text "1")] ∧
      shownBy (general (text "1") (text "3") (text "0")) (text " print(i); break; \x7d") = some []) ∧
    (shownBy (forLoop (text "i") (text "\"2\"") (text "1") (some (text "-1"))) (text " print(i); \x7d") =
        some [.print (text "2"), .print (text "1")] ∧
      shownBy (general (text "\"2\"") (text "1") (text "-1")) (text " print(i); \x7d") =
        some [.print (text "2")]) ∧
    shownBy (forLoop (text "i") (text "1") (text "3") (some (text "1 0"))) (text " print(i); \x7d") =
        some [.print (text "1")] ∧
      shownBy (general (text "1") (text "3") (text "1 0")) (text " print(i); \x7d") = none := by
  decide +kernel

end Translation

end Pseudocode
