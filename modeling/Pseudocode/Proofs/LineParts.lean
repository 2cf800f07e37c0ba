import Pseudocode.Proofs.Operands
import Pseudocode.Proofs.WordCounts
import Pseudocode.Translation

/-!
# The parts of a line

A line of the source and its script line hold the operands of the same statement. Between them stands what the
form of the statement writes in either language. The script may write the operands in another order, and more
than once.

* `LinePart`                        an operand with its number, or what the form writes around the operands
* `LinePart.IsCutApart`             no word goes on from one part to the next
* `LinePart.tally_flatten`          the occurrences of a word in the parts of a line
* `Translation.parts`               the parts of a script line, which `flatten_parts` puts together
* `Translation.spells_of_mem_parts` what the script has for an operand
-/

namespace Pseudocode

open Column

/-- A part of a line. -/
inductive LinePart where
  /-- What the form of the statement writes: its words, signs and white space. -/
  | frame (chars : Text)
  /-- The operand of the statement that has the number. -/
  | operand (number : Nat) (chars : Text)
  deriving DecidableEq, Repr

namespace LinePart

/-- The text of a part. -/
def chars : LinePart → Text
  | frame t | operand _ t => t

/-- The text of an operand and its number. -/
def operand? : LinePart → Option (Text × Nat)
  | frame _ => none
  | operand number t => some (t, number)

/-- The text that stands around operands. -/
def frame? : LinePart → Option Text
  | frame t => some t
  | operand _ _ => none

/-- The text of a line. -/
def flatten (parts : List LinePart) : Text := parts.flatMap chars

/-- The numbers of the operands, in the order of the line. -/
def numbers (parts : List LinePart) : List Nat := (parts.filterMap operand?).map Prod.snd

/-- How often the word stands in what the form writes. -/
def frameTally (word : Text) (parts : List LinePart) : Nat := ((parts.filterMap frame?).map (tally word)).sum

/-- No word goes on from one part to the next. -/
def IsCutApart : List LinePart → Prop
  | [] => True
  | p :: parts => Separated p.chars (flatten parts) ∧ IsCutApart parts

instance decidableIsCutApart : DecidablePred IsCutApart
  | [] => inferInstanceAs (Decidable True)
  | _ :: parts => @instDecidableAnd _ _ _ (decidableIsCutApart parts)

variable {parts before behind : List LinePart} {p : LinePart} {word t f g : Text} {number : Nat} {count : Nat → Nat}

@[simp] theorem flatten_nil : flatten [] = [] := rfl

@[simp] theorem flatten_cons (p : LinePart) (parts : List LinePart) : flatten (p :: parts) = p.chars ++ flatten parts := rfl

@[simp] theorem flatten_append (parts behind : List LinePart) :
    flatten (parts ++ behind) = flatten parts ++ flatten behind := List.flatMap_append

@[simp] theorem chars_frame (t : Text) : (frame t).chars = t := rfl

@[simp] theorem chars_operand (number : Nat) (t : Text) : (operand number t).chars = t := rfl

@[simp] theorem numbers_append (parts behind : List LinePart) :
    numbers (parts ++ behind) = numbers parts ++ numbers behind := by
  rw [numbers, List.filterMap_append, List.map_append, numbers, numbers]

@[simp] theorem numbers_frame (t : Text) (parts : List LinePart) : numbers (frame t :: parts) = numbers parts := rfl

@[simp] theorem numbers_operand (number : Nat) (t : Text) (parts : List LinePart) :
    numbers (operand number t :: parts) = number :: numbers parts := rfl

/-! ## Cuts -/

theorem IsCutApart.of_append (h : IsCutApart (before ++ behind)) : IsCutApart behind := by
  induction before with
  | nil => exact h
  | cons p before ih => exact ih h.2

theorem IsCutApart.of_append_left (h : IsCutApart (before ++ behind)) : IsCutApart before := by
  induction before with
  | nil => trivial
  | cons p before ih =>
    refine ⟨?_, ih h.2⟩
    by_cases hempty : flatten before = []
    · rw [hempty]
      exact separated_nil_right _
    · have hp : Separated p.chars (flatten before ++ flatten behind) := flatten_append before behind ▸ h.1
      exact hp.imp_right fun hhead c hc => hhead c (by rwa [List.head?_append_of_ne_nil _ hempty])

/-- A line that is cut apart may be cut between any two parts. -/
theorem IsCutApart.separated (h : IsCutApart (before ++ behind)) : Separated (flatten before) (flatten behind) := by
  induction before with
  | nil => exact separated_nil_left _
  | cons p before ih =>
    have hp : Separated p.chars (flatten (before ++ behind)) := h.1
    rw [flatten_cons]
    by_cases hempty : flatten before = []
    · rwa [flatten_append, hempty, List.nil_append, ← List.append_nil p.chars, ← hempty] at hp
    · exact (ih h.2).append_left hempty p.chars

/-- A part that no word goes on in, whatever stands in front of it. -/
def beginsApart : LinePart → Bool
  | frame t => t.head?.any fun c => !isWordChar c
  | operand _ _ => false

/-- A part that no word goes on from, whatever stands behind it. -/
def endsApart : LinePart → Bool
  | frame t => t.getLast?.any fun c => !isWordChar c
  | operand _ _ => false

/-- Where two parts meet, the frame keeps them apart, whatever the operands are. -/
def areFramed : List LinePart → Bool
  | [] | [_] => true
  | p :: q :: parts => (p.endsApart || q.beginsApart) && areFramed (q :: parts)

theorem separated_of_endsApart (h : p.endsApart = true) (t : Text) : Separated p.chars t := by
  cases p with
  | operand number u => cases h
  | frame u =>
    refine .inl fun c hc => ?_
    rw [chars_frame] at hc
    rw [endsApart, Option.mem_def.1 hc] at h
    simpa using h

theorem separated_of_beginsApart (h : p.beginsApart = true) (t : Text) (parts : List LinePart) :
    Separated t (flatten (p :: parts)) := by
  cases p with
  | operand number u => cases h
  | frame u =>
    refine .inr fun c hc => ?_
    cases u with
    | nil => cases h
    | cons d u =>
      obtain rfl : d = c := Option.some.inj hc
      simpa [beginsApart] using h

theorem isCutApart_of_areFramed (h : areFramed parts = true) : IsCutApart parts := by
  fun_induction areFramed parts with
  | case1 => trivial
  | case2 p => exact ⟨separated_nil_right _, trivial⟩
  | case3 p q parts ih =>
    rw [Bool.and_eq_true, Bool.or_eq_true] at h
    refine ⟨?_, ih h.2⟩
    rcases h.1 with hends | hbegins
    · exact separated_of_endsApart hends _
    · exact separated_of_beginsApart hbegins _ _

/-! ## Counting -/

/-- The operands hold the word as often as `count` says. -/
def Holds (word : Text) (count : Nat → Nat) (parts : List LinePart) : Prop :=
  ∀ number t, operand number t ∈ parts → tally word t = count number

theorem Holds.of_append_left (h : Holds word count (parts ++ behind)) : Holds word count parts :=
  fun number t ht => h number t (List.mem_append_left _ ht)

/-- The occurrences in a line are those in its frame and in its operands. -/
theorem tally_flatten (hword : IsWord word) (h : IsCutApart parts) (hcount : Holds word count parts) :
    tally word (flatten parts) = frameTally word parts + ((numbers parts).map count).sum := by
  induction parts with
  | nil => rfl
  | cons p parts ih =>
    have hparts := ih h.2 fun number t ht => hcount number t (List.mem_cons_of_mem p ht)
    rw [flatten_cons, tally_append hword h.1, hparts]
    cases p with
    | frame t => simp [frameTally, frame?, Nat.add_assoc]
    | operand number t =>
      have hframe : frameTally word (operand number t :: parts) = frameTally word parts := rfl
      rw [chars_operand, hcount number t List.mem_cons_self, numbers_operand, List.map_cons, List.sum_cons, hframe,
        Nat.add_left_comm]

end LinePart

/-! ## Script lines -/

namespace Translation

/-- The parts of a request for input; the prompt has the number. -/
def inputParts (number : Nat) : Option Text → List LinePart
  | some prompt => [.frame (text "await input("), .operand number (value prompt), .frame [')']]
  | none => [.frame (text "await input(\"\")")]

/-- The parts of a right-hand side, whose operand has the number. -/
def initializerParts (number : Nat) : Initializer → List LinePart
  | .expression operand => [.operand number (value operand)]
  | .input prompt => inputParts number prompt

/-- Operands between commas, numbered from a number on. -/
def listParts (number : Nat) : List Text → List LinePart
  | [] => []
  | [t] => [.operand number t]
  | t :: u :: r => .operand number t :: .frame (text ", ") :: listParts (number + 1) (u :: r)

/-- A step that is a numeral, which the script writes in its own way. -/
def stepNumeral? (step : Text) : Option Double := Numeral.double? (step.filter fun c => !Text.isBlank c)

/-- The parts of a loop header behind its start value. -/
def loopParts (name stop : Text) (step : Option Text) : List LinePart :=
  match step with
  | none => [.frame (text "; "), .operand 0 name, .frame (text " <= "), .operand 2 (value stop), .frame (text "; "),
      .operand 0 name, .frame (text " += 1"), .frame (text ") \x7b")]
  | some step =>
    match stepNumeral? step with
    | some n =>
      if n.isBelowZero then
        [.frame (text "; "), .operand 0 name, .frame (text " >= "), .operand 2 (value stop), .frame (text "; "),
          .operand 0 name, .frame (text " -= "), .operand 3 (Numeral.shortestText n.negate), .frame (text ") \x7b")]
      else
        [.frame (text "; "), .operand 0 name, .frame (text " <= "), .operand 2 (value stop), .frame (text "; "),
          .operand 0 name, .frame (text " += "), .operand 3 (Numeral.shortestText n), .frame (text ") \x7b")]
    | none =>
      [.frame (text "; "), .frame ['('], .operand 3 (value step), .frame (text ") > 0 ? "), .operand 0 name,
        .frame (text " <= "), .operand 2 (value stop), .frame (text " : "), .operand 0 name, .frame (text " >= "),
        .operand 2 (value stop), .frame (text "; "), .operand 0 name, .frame (text " += "), .operand 3 (value step),
        .frame (text ") \x7b")]

/-- The parts of a script line. The operands have the numbers that they have in the statement. -/
def parts (line : Text) : Statement → List LinePart
  | .comment note => if note.isEmpty then [.frame (text "//")] else [.frame (text "// "), .operand 0 note]
  | .header name => [.frame (text "// Algorithm "), .operand 0 name]
  | .forLoop name start stop step =>
    .frame (text "for (let ") :: .operand 0 name :: .frame (text " = ") :: .operand 1 (value start) ::
      loopParts name stop step
  | .whileLoop c => [.frame (text "while"), .frame (text " ("), .operand 0 (condition c), .frame (text ") \x7b")]
  | .branch c => [.frame (text "if"), .frame (text " ("), .operand 0 (condition c), .frame (text ") \x7b")]
  | .elseIf c =>
    [.frame (text "\x7d else if"), .frame (text " ("), .operand 0 (condition c), .frame (text ") \x7b")]
  | .function name parameters =>
    .frame (text "function ") :: .operand 0 name :: .frame ['('] ::
      (listParts 1 parameters ++ [.frame (text ") \x7b")])
  | .returning (some v) => [.frame (text "return "), .operand 0 (value v), .frame [';']]
  | .declaration kind name (some size) _ =>
    [.frame (declarationWord kind), .frame [' '], .operand 0 name, .frame (text " = new Array("),
      .operand 1 (value size), .frame (text ").fill(0);")]
  | .declaration kind name none (some init) =>
    .frame (declarationWord kind) :: .frame [' '] :: .operand 0 name :: .frame (text " = ") ::
      (initializerParts 1 init ++ [.frame [';']])
  | .declaration _ name none none => [.frame (text "let "), .operand 0 name, .frame [';']]
  | .set v target => [.operand 1 (value target), .frame (text " = "), .operand 0 (value v), .frame [';']]
  | .declare name typeName => [.frame (text "let "), .operand 0 name, .frame (text "; // "), .operand 1 typeName]
  | .print operands =>
    .frame (text "print(") :: (listParts 0 (operands.map value) ++ [.frame (text ");")])
  | .input prompt (some target) =>
    .operand prompt.toList.length (value target) :: .frame (text " = ") :: (inputParts 0 prompt ++ [.frame [';']])
  | .input prompt none => inputParts 0 prompt ++ [.frame [';']]
  | .assignment target operator (.expression operand) =>
    [.operand 0 (value target), .frame [' '], .frame operator.sign, .frame [' '], .operand 1 (value operand),
      .frame [';']]
  | .assignment target _ (.input prompt) =>
    .operand 0 (value target) :: .frame (text " = ") :: (inputParts 1 prompt ++ [.frame [';']])
  | .call called => [.operand 0 (value called), .frame [';']]
  | s => [.frame (statement line s)]

theorem flatten_inputParts (number : Nat) (prompt : Option Text) :
    LinePart.flatten (inputParts number prompt) = inputCall prompt := by
  cases prompt <;> simp [inputParts, inputCall]

theorem flatten_initializerParts (number : Nat) (init : Initializer) :
    LinePart.flatten (initializerParts number init) = initializer init := by
  cases init with
  | expression operand => simp [initializerParts, initializer]
  | input prompt => exact flatten_inputParts number prompt

theorem flatten_listParts (number : Nat) (items : List Text) :
    LinePart.flatten (listParts number items) = Text.join (text ", ") items := by
  fun_induction listParts number items with
  | case1 => rfl
  | case2 => simp [Text.join]
  | case3 number t u r ih => simp [ih, Text.join_cons]

theorem flatten_loopParts (name start stop : Text) (step : Option Text) :
    text "for (let " ++ (name ++ (text " = " ++ (value start ++ LinePart.flatten (loopParts name stop step)))) =
      forLoop name start stop step := by
  cases step with
  | none => simp [loopParts, forLoop, loopClauses]
  | some step =>
    simp only [loopParts, forLoop, loopClauses, stepNumeral?]
    cases Numeral.double? (step.filter fun c => !Text.isBlank c) with
    | none => simp
    | some n => cases h : n.isBelowZero <;> simp [h]

/-- The parts of a script line are put together to the line. -/
theorem flatten_parts (line : Text) (s : Statement) : LinePart.flatten (parts line s) = statement line s := by
  cases s with
  | comment note =>
    rw [parts, statement]
    split <;> simp
  | forLoop name start stop step => exact flatten_loopParts name start stop step
  | function name parameters => simp [parts, statement, flatten_listParts]
  | returning value => cases value <;> simp [parts, statement]
  | declaration kind name size init =>
    rcases size with - | size <;> rcases init with - | init <;>
      simp [parts, statement, declaration, flatten_initializerParts]
  | print operands => simp [parts, statement, flatten_listParts]
  | input prompt target => cases target <;> simp [parts, statement, flatten_inputParts]
  | assignment target operator init => cases init <;> simp [parts, statement, flatten_inputParts]
  | _ => simp [parts, statement, opening]

/-! ## Cuts in script lines -/

/-- Between a frame in front and a frame behind, the commas of a list keep its items apart. -/
theorem areFramed_listParts {p q : LinePart} {behind : List LinePart} (hp : p.endsApart = true)
    (hq : q.beginsApart = true) (h : LinePart.areFramed (q :: behind) = true) (number : Nat) (items : List Text) :
    LinePart.areFramed (p :: (listParts number items ++ q :: behind)) = true := by
  fun_induction listParts number items generalizing p with
  | case1 => simp [LinePart.areFramed, hp, h]
  | case2 number t => simp [LinePart.areFramed, hp, hq, h]
  | case3 number t u r ih =>
    have hrest := ih (p := .frame (text ", ")) rfl
    have hcomma : (LinePart.frame (text ", ")).beginsApart = true := rfl
    simp [LinePart.areFramed, hp, hcomma, hrest]

theorem areFramed_loopParts (name start stop : Text) (step : Option Text) :
    LinePart.areFramed (.operand 1 start :: loopParts name stop step) = true := by
  cases step with
  | none => rfl
  | some step =>
    rw [loopParts]
    split
    · split <;> rfl
    · rfl

/-- In a script line, no word goes on from one part to the next. -/
theorem isCutApart_parts (line : Text) (s : Statement) : LinePart.IsCutApart (parts line s) := by
  apply LinePart.isCutApart_of_areFramed
  -- most statements have a fixed frame; lists and loop headers are framed part by part
  cases s with
  | comment note =>
    rw [parts]
    split <;> rfl
  | forLoop name start stop step => exact areFramed_loopParts name (value start) stop step
  | function name parameters => exact areFramed_listParts rfl rfl rfl 1 parameters
  | returning value => cases value <;> rfl
  | declaration kind name size init =>
    rcases size with - | size
    · rcases init with - | ⟨operand | ⟨- | prompt⟩⟩ <;> cases kind <;> rfl
    · cases kind <;> rfl
  | print operands => exact areFramed_listParts rfl rfl rfl 0 _
  | input prompt target => cases prompt <;> cases target <;> rfl
  | assignment target operator init =>
    rcases init with operand | ⟨- | prompt⟩
    · cases operator <;> rfl
    · rfl
    · rfl
  | _ => rfl

/-! ## Operands of script lines -/

theorem numbers_listParts (number : Nat) (items : List Text) :
    LinePart.numbers (listParts number items) = List.range' number items.length := by
  fun_induction listParts number items with
  | case1 => rfl
  | case2 => rfl
  | case3 number t u r ih => rw [LinePart.numbers_operand, LinePart.numbers_frame, ih, ← List.range'_succ]; rfl

/-- A statement whose operands the script writes in the order of the source, once each. -/
def keepsOrder : Statement → Bool
  | .forLoop .. | .set .. | .input (some _) (some _) => false
  | _ => true

/-- The operands of most statements are written in the order of the source. -/
theorem numbers_parts (line : Text) (s : Statement) (h : keepsOrder s = true) :
    ∃ n, LinePart.numbers (parts line s) = List.range n := by
  -- loops, `set` and `input` with a prompt and a target write their operands in another order
  cases s with
  | comment note =>
    rw [parts]
    split
    · exact ⟨0, rfl⟩
    · exact ⟨1, rfl⟩
  | forLoop name start stop step => cases h
  | set v target => cases h
  | function name parameters =>
    refine ⟨parameters.length + 1, ?_⟩
    rw [parts, LinePart.numbers_frame, LinePart.numbers_operand, LinePart.numbers_frame, LinePart.numbers_append,
      numbers_listParts, List.range_eq_range', List.range'_succ]
    exact congrArg (List.cons 0) (List.append_nil _)
  | print operands =>
    refine ⟨operands.length, ?_⟩
    rw [parts, LinePart.numbers_frame, LinePart.numbers_append, numbers_listParts, List.length_map,
      List.range_eq_range']
    exact List.append_nil _
  | header name | whileLoop c | branch c | elseIf c | call c => exact ⟨1, rfl⟩
  | declare name typeName => exact ⟨2, rfl⟩
  | returning value =>
    rcases value with - | value
    · exact ⟨0, rfl⟩
    · exact ⟨1, rfl⟩
  | declaration kind name size init =>
    rcases size with - | size
    · rcases init with - | ⟨operand | ⟨- | prompt⟩⟩
      · exact ⟨1, rfl⟩
      · exact ⟨2, rfl⟩
      · exact ⟨1, rfl⟩
      · exact ⟨2, rfl⟩
    · exact ⟨2, rfl⟩
  | input prompt target =>
    rcases prompt with - | prompt <;> rcases target with - | target
    · exact ⟨0, rfl⟩
    · exact ⟨1, rfl⟩
    · exact ⟨1, rfl⟩
    · cases h
  | assignment target operator init =>
    rcases init with operand | ⟨- | prompt⟩
    · exact ⟨2, rfl⟩
    · exact ⟨1, rfl⟩
    · exact ⟨2, rfl⟩
  | _ => exact ⟨0, rfl⟩

/-- The script has the operand as it is written, or in the spelling of the script. -/
inductive Spells (operand : Text) : Text → Prop where
  | asWritten : Spells operand operand
  | rewritten (context : Expression.Context) : Spells operand (Expression.rewrite context operand)

/-- The step of a counting loop, which is the last operand, as a numeral. -/
def hasNumeralStep : Statement → Bool
  | .forLoop _ _ _ (some step) => (stepNumeral? step).isSome
  | _ => false

theorem spells_of_mem_listParts {number n : Nat} {items : List Text} {t : Text}
    (h : .operand n t ∈ listParts number items) : ∃ i, n = number + i ∧ items[i]? = some t := by
  fun_induction listParts number items with
  | case1 => cases h
  | case2 number u =>
    obtain ⟨rfl, rfl⟩ : n = number ∧ t = u := by simpa using h
    exact ⟨0, rfl, rfl⟩
  | case3 number u v r ih =>
    simp only [List.mem_cons, LinePart.operand.injEq, reduceCtorEq, false_or] at h
    rcases h with ⟨rfl, rfl⟩ | h
    · exact ⟨0, rfl, rfl⟩
    · obtain ⟨i, rfl, hi⟩ := ih (by simpa using h)
      exact ⟨i + 1, by omega, hi⟩

theorem spells_value (operand : Text) : Spells operand (value operand) := .rewritten .value

theorem spells_condition (operand : Text) : Spells operand (condition operand) := .rewritten .condition

theorem spells_of_mem_inputParts {number n : Nat} {prompt : Option Text} {t : Text}
    (h : .operand n t ∈ inputParts number prompt) : n = number ∧ ∃ p ∈ prompt, Spells p t := by
  cases prompt with
  | none => simp [inputParts] at h
  | some p =>
    obtain ⟨rfl, rfl⟩ : n = number ∧ t = value p := by simpa [inputParts] using h
    exact ⟨rfl, p, rfl, spells_value p⟩

theorem spells_of_mem_loopParts {name stop t : Text} {step : Option Text} {n : Nat}
    (h : .operand n t ∈ loopParts name stop step) :
    n = 0 ∧ Spells name t ∨ n = 2 ∧ Spells stop t ∨
      n = 3 ∧ ∃ written ∈ step, (stepNumeral? written).isSome = true ∨ Spells written t := by
  cases step with
  | none =>
    simp only [loopParts, List.mem_cons, LinePart.operand.injEq, reduceCtorEq, false_or, or_false,
      List.not_mem_nil] at h
    rcases h with ⟨rfl, rfl⟩ | ⟨rfl, rfl⟩ | ⟨rfl, rfl⟩
    · exact .inl ⟨rfl, .asWritten⟩
    · exact .inr (.inl ⟨rfl, spells_value stop⟩)
    · exact .inl ⟨rfl, .asWritten⟩
  | some step =>
    rw [loopParts] at h
    -- a step that is a numeral is written as its amount, any other one twice and as it stands
    split at h
    · next m hm =>
      have hnumeral : (stepNumeral? step).isSome = true := by rw [hm]; rfl
      split at h
      all_goals
        simp only [List.mem_cons, LinePart.operand.injEq, reduceCtorEq, false_or, or_false, List.not_mem_nil] at h
        rcases h with ⟨rfl, rfl⟩ | ⟨rfl, rfl⟩ | ⟨rfl, rfl⟩ | ⟨rfl, -⟩
        · exact .inl ⟨rfl, .asWritten⟩
        · exact .inr (.inl ⟨rfl, spells_value stop⟩)
        · exact .inl ⟨rfl, .asWritten⟩
        · exact .inr (.inr ⟨rfl, step, rfl, .inl hnumeral⟩)
    · simp only [List.mem_cons, LinePart.operand.injEq, reduceCtorEq, false_or, or_false, List.not_mem_nil] at h
      rcases h with ⟨rfl, rfl⟩ | ⟨rfl, rfl⟩ | ⟨rfl, rfl⟩ | ⟨rfl, rfl⟩ | ⟨rfl, rfl⟩ | ⟨rfl, rfl⟩ | ⟨rfl, rfl⟩
      · exact .inr (.inr ⟨rfl, step, rfl, .inr (spells_value step)⟩)
      · exact .inl ⟨rfl, .asWritten⟩
      · exact .inr (.inl ⟨rfl, spells_value stop⟩)
      · exact .inl ⟨rfl, .asWritten⟩
      · exact .inr (.inl ⟨rfl, spells_value stop⟩)
      · exact .inl ⟨rfl, .asWritten⟩
      · exact .inr (.inr ⟨rfl, step, rfl, .inr (spells_value step)⟩)

/-- What the script has for an operand, unless it is a step that is a numeral. -/
theorem spells_of_mem_parts {line t : Text} {s : Statement} {n : Nat} (h : .operand n t ∈ parts line s) :
    (∃ operand, s.operands[n]? = some operand ∧ Spells operand t) ∨ hasNumeralStep s = true ∧ n = 3 := by
  -- the number of the part says which operand it is written from
  cases s with
  | comment note =>
    rw [parts] at h
    split at h
    · simp at h
    · obtain ⟨rfl, rfl⟩ : n = 0 ∧ t = note := by simpa using h
      exact .inl ⟨t, rfl, .asWritten⟩
  | header name =>
    obtain ⟨rfl, rfl⟩ : n = 0 ∧ t = name := by simpa [parts] using h
    exact .inl ⟨t, rfl, .asWritten⟩
  | forLoop name start stop step =>
    simp only [parts, List.mem_cons, LinePart.operand.injEq, reduceCtorEq, false_or] at h
    rcases h with ⟨rfl, rfl⟩ | ⟨rfl, rfl⟩ | h
    · exact .inl ⟨t, rfl, .asWritten⟩
    · exact .inl ⟨start, rfl, spells_value start⟩
    · rcases spells_of_mem_loopParts h with ⟨rfl, ht⟩ | ⟨rfl, ht⟩ | ⟨rfl, step, rfl, hnumeral | ht⟩
      · exact .inl ⟨name, rfl, ht⟩
      · exact .inl ⟨stop, rfl, ht⟩
      · exact .inr ⟨hnumeral, rfl⟩
      · exact .inl ⟨step, rfl, ht⟩
  | whileLoop c | branch c | elseIf c =>
    obtain ⟨rfl, rfl⟩ : n = 0 ∧ t = condition c := by simpa [parts] using h
    exact .inl ⟨c, rfl, spells_condition c⟩
  | function name parameters =>
    simp only [parts, List.mem_cons, List.mem_append, LinePart.operand.injEq, reduceCtorEq, false_or, or_false,
      List.not_mem_nil] at h
    rcases h with ⟨rfl, rfl⟩ | h
    · exact .inl ⟨t, rfl, .asWritten⟩
    · obtain ⟨i, rfl, hi⟩ := spells_of_mem_listParts h
      exact .inl ⟨t, by rw [Nat.add_comm]; exact hi, .asWritten⟩
  | returning v =>
    cases v with
    | none => simp [parts] at h
    | some v =>
      obtain ⟨rfl, rfl⟩ : n = 0 ∧ t = value v := by simpa [parts] using h
      exact .inl ⟨v, rfl, spells_value v⟩
  | declaration kind name size init =>
    rcases size with - | size
    · rcases init with - | init
      · obtain ⟨rfl, rfl⟩ : n = 0 ∧ t = name := by simpa [parts] using h
        exact .inl ⟨t, rfl, .asWritten⟩
      · simp only [parts, List.mem_cons, List.mem_append, LinePart.operand.injEq, reduceCtorEq, false_or, or_false,
          List.not_mem_nil] at h
        rcases h with ⟨rfl, rfl⟩ | h
        · exact .inl ⟨t, rfl, .asWritten⟩
        · cases init with
          | expression operand =>
            obtain ⟨rfl, rfl⟩ : n = 1 ∧ t = value operand := by simpa [initializerParts] using h
            exact .inl ⟨operand, rfl, spells_value operand⟩
          | input prompt =>
            obtain ⟨rfl, p, rfl, ht⟩ := spells_of_mem_inputParts h
            exact .inl ⟨p, rfl, ht⟩
    · simp only [parts, List.mem_cons, LinePart.operand.injEq, reduceCtorEq, false_or, or_false,
        List.not_mem_nil] at h
      rcases h with ⟨rfl, rfl⟩ | ⟨rfl, rfl⟩
      · exact .inl ⟨t, rfl, .asWritten⟩
      · exact .inl ⟨size, rfl, spells_value size⟩
  | set v target =>
    simp only [parts, List.mem_cons, LinePart.operand.injEq, reduceCtorEq, false_or, or_false, List.not_mem_nil] at h
    rcases h with ⟨rfl, rfl⟩ | ⟨rfl, rfl⟩
    · exact .inl ⟨target, rfl, spells_value target⟩
    · exact .inl ⟨v, rfl, spells_value v⟩
  | declare name typeName =>
    simp only [parts, List.mem_cons, LinePart.operand.injEq, reduceCtorEq, false_or, or_false, List.not_mem_nil] at h
    rcases h with ⟨rfl, rfl⟩ | ⟨rfl, rfl⟩
    · exact .inl ⟨t, rfl, .asWritten⟩
    · exact .inl ⟨t, rfl, .asWritten⟩
  | print operands =>
    have h : .operand n t ∈ listParts 0 (operands.map value) := by simpa [parts] using h
    obtain ⟨i, rfl, hi⟩ := spells_of_mem_listParts h
    obtain ⟨operand, hoperand, rfl⟩ := by rw [List.getElem?_map, Option.map_eq_some_iff] at hi; exact hi
    exact .inl ⟨operand, by rw [Nat.zero_add]; exact hoperand, spells_value operand⟩
  | input prompt target =>
    cases target with
    | none =>
      have h : .operand n t ∈ inputParts 0 prompt := by simpa [parts] using h
      obtain ⟨rfl, p, rfl, ht⟩ := spells_of_mem_inputParts h
      exact .inl ⟨p, rfl, ht⟩
    | some target =>
      simp only [parts, List.mem_cons, List.mem_append, LinePart.operand.injEq, reduceCtorEq, false_or, or_false,
        List.not_mem_nil] at h
      rcases h with ⟨rfl, rfl⟩ | h
      · refine .inl ⟨target, ?_, spells_value target⟩
        cases prompt <;> rfl
      · obtain ⟨rfl, p, rfl, ht⟩ := spells_of_mem_inputParts h
        exact .inl ⟨p, rfl, ht⟩
  | assignment target operator init =>
    cases init with
    | expression operand =>
      simp only [parts, List.mem_cons, LinePart.operand.injEq, reduceCtorEq, false_or, or_false,
        List.not_mem_nil] at h
      rcases h with ⟨rfl, rfl⟩ | ⟨rfl, rfl⟩
      · exact .inl ⟨target, rfl, spells_value target⟩
      · exact .inl ⟨operand, rfl, spells_value operand⟩
    | input prompt =>
      simp only [parts, List.mem_cons, List.mem_append, LinePart.operand.injEq, reduceCtorEq, false_or, or_false,
        List.not_mem_nil] at h
      rcases h with ⟨rfl, rfl⟩ | h
      · exact .inl ⟨target, rfl, spells_value target⟩
      · obtain ⟨rfl, p, rfl, ht⟩ := spells_of_mem_inputParts h
        exact .inl ⟨p, rfl, ht⟩
  | call called =>
    obtain ⟨rfl, rfl⟩ : n = 0 ∧ t = value called := by simpa [parts] using h
    exact .inl ⟨called, rfl, spells_value called⟩
  | _ => simp [parts] at h

end Translation

end Pseudocode
