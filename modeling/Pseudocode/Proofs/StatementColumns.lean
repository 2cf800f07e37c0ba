import Pseudocode.Proofs.OperandColumns
import Pseudocode.Proofs.ReadTexts

/-!
# Columns of statements

Most statements write their operands in the order of the source, once each, and there a column on a word of an
operand is carried to this operand as soon as the words of the form, in front of the operand, hold the word equally
often in both lines. `set` exchanges two operands, and counting loops repeat the variable and the bounds; there a
word that stands in several of them may be carried to another one.

* `Statement.Locates`                   the words of an operand that are carried to it, by the form of the statement
* `Statement.IsPlaced`                  an operand and its places in both lines
* `Statement.keepsNumbers_of_keepsOrder`, `Statement.keepsNumbers_of_exchanged`, `Statement.keepsNumbers_forLoop`
                                        the numbers of the occurrences, by the order of the operands in the script
* `map?_stays_in_operand`               the columns of script lines
-/

namespace Pseudocode

open Column

variable {s : Statement} {word t u written line : Text} {source before after front behind : List LinePart}
  {number n : Nat}

namespace Statement

/-- How often the word stands in the operand with the number. -/
def operandTally (s : Statement) (word : Text) (number : Nat) : Nat := tally word (s.operands.getD number [])

/-- In a statement whose operands the script writes in another order, or several times, the word stands in none
    of the operands whose places would be mistaken for each other. -/
def KeepsOrder (word : Text) (source : List LinePart) : Statement → Prop
  | set value target | input (some value) (some target) => tally word value = 0 ∨ tally word target = 0
  | forLoop name _ stop step =>
    LinePart.frameTally word source = 0 ∧
      (0 < tally word stop → tally word name = 0 ∧
        ∀ written ∈ step, Translation.stepNumeral? written = none → tally word written = 0) ∧
      (0 < tally word name →
        ∀ written ∈ step, (Translation.stepNumeral? written).isSome = true → tally word written = 0)
  | _ => True

/-- The word is one of an operand, and where it stands in the statement and in front of the operand says which
    of its occurrences are those in the operand. -/
structure Locates (s : Statement) (word : Text) (source front : List LinePart) (t : Text) (before : List LinePart) :
    Prop where
  /-- The script has the same spelling for the word. -/
  spelling : Expression.wordOperator? word = none
  /-- No operator that is a word touches another word. -/
  operators : ∀ operand ∈ s.operands, Expression.HasFreeOperators operand
  /-- The source has the word in the operand. -/
  own : 0 < tally word t
  /-- The form of the statement writes the word as often in front of the operand in either language. -/
  frames : LinePart.frameTally word before = LinePart.frameTally word front
  order : s.KeepsOrder word source

/-! ## The words in front of an operand -/

/-- The numbers in front of one of the numbers of a list. -/
theorem exists_take {x y l : List Nat} {i : Nat} (h : x ++ i :: y = l) :
    ∃ j < l.length, x = l.take j ∧ l[j]? = some i := by
  subst h
  exact ⟨x.length, by simp, by simp, by simp⟩

theorem eq_range_of_append {x y : List Nat} {i n : Nat} (h : x ++ i :: y = List.range n) : x = List.range i := by
  obtain ⟨j, hj, rfl, hi⟩ := exists_take h
  rw [List.length_range] at hj
  rw [List.getElem?_range hj] at hi
  rw [List.take_range, Nat.min_eq_left hj.le, Option.some.inj hi]

namespace IsLaidOut

theorem numbers_eq (h : s.IsLaidOut u source) : LinePart.numbers source = List.range s.operands.length := by
  rw [LinePart.numbers, h.operands_eq, List.zipIdx_map_snd, List.range_eq_range']

theorem mem_iff (h : s.IsLaidOut u source) : .operand number t ∈ source ↔ s.operands[number]? = some t := by
  have hmem : (t, number) ∈ source.filterMap LinePart.operand? ↔ .operand number t ∈ source := by
    rw [List.mem_filterMap]
    constructor
    · rintro ⟨p, hp, heq⟩
      cases p with
      | frame f => cases heq
      | operand number t =>
        cases heq
        exact hp
    · exact fun hmem => ⟨_, hmem, rfl⟩
  rw [← hmem, h.operands_eq, List.mem_zipIdx_iff_getElem?]

theorem holds (h : s.IsLaidOut u source) (word : Text) : LinePart.Holds word (s.operandTally word) source := by
  intro number t ht
  rw [operandTally, List.getD, h.mem_iff.1 ht]
  rfl

theorem numbers_front (h : s.IsLaidOut u (front ++ .operand number t :: behind)) :
    LinePart.numbers front = List.range number := by
  have hnumbers := h.numbers_eq
  rw [LinePart.numbers_append, LinePart.numbers_operand] at hnumbers
  exact eq_range_of_append hnumbers

theorem tally_eq (hword : IsWord word) (hcut : LinePart.IsCutApart source) (h : s.IsLaidOut u source) :
    tally word (LinePart.flatten source) = LinePart.frameTally word source +
      ((List.range s.operands.length).map (s.operandTally word)).sum := by
  rw [LinePart.tally_flatten hword hcut (h.holds word), h.numbers_eq]

theorem tally_front (hword : IsWord word) (hcut : LinePart.IsCutApart (front ++ .operand number t :: behind))
    (h : s.IsLaidOut u (front ++ .operand number t :: behind)) :
    tally word (LinePart.flatten front) = LinePart.frameTally word front +
      ((List.range number).map (s.operandTally word)).sum := by
  rw [LinePart.tally_flatten hword hcut.of_append_left (h.holds word).of_append_left, h.numbers_front]

end IsLaidOut

/-- What the script has for an operand holds the word as often. -/
theorem tally_of_spells {operand : Text} (hword : IsWord word) (hspelling : Expression.wordOperator? word = none)
    (hfree : Expression.HasFreeOperators operand) (h : Translation.Spells operand t) :
    tally word t = tally word operand := by
  cases h with
  | asWritten => rfl
  | rewritten context => exact Expression.tally_rewrite context hword hspelling hfree

/-- The operands of a script line hold the word as often as those of the source, the numeral of a step apart. -/
theorem Locates.tally_of_mem (h : s.Locates word source front t before) (hword : IsWord word)
    (hmem : .operand n written ∈ Translation.parts line s)
    (hstep : Translation.hasNumeralStep s = true → n ≠ 3) : tally word written = s.operandTally word n := by
  obtain ⟨operand, hoperand, hspells⟩ | ⟨hnumeral, hn⟩ := Translation.spells_of_mem_parts hmem
  · rw [operandTally, List.getD, hoperand]
    exact tally_of_spells hword h.spelling (h.operators operand (List.mem_of_getElem? hoperand)) hspells
  · exact absurd hn (hstep hnumeral)

/-- The operand with the number stands in a text `u` that the statement is read from, as `t` and with the parts
    `front` in front of it, and in the script of the line, as `written` and with the parts `before`. -/
structure IsPlaced (s : Statement) (line u : Text) (source front before : List LinePart) (number : Nat)
    (t written : Text) : Prop where
  laidOut : s.IsLaidOut u source
  cut : LinePart.IsCutApart source
  source_eq : ∃ behind, source = front ++ .operand number t :: behind
  parts_eq : ∃ after, Translation.parts line s = before ++ .operand number written :: after

namespace IsPlaced

theorem tally_eq (h : s.IsPlaced line u source front before number t written) :
    tally word t = s.operandTally word number := by
  obtain ⟨behind, hsource⟩ := h.source_eq
  exact h.laidOut.holds word number t (by simp [hsource])

theorem tally_front (h : s.IsPlaced line u source front before number t written) (hword : IsWord word) :
    tally word (LinePart.flatten front) = LinePart.frameTally word front +
      ((List.range number).map (s.operandTally word)).sum := by
  obtain ⟨behind, rfl⟩ := h.source_eq
  exact h.laidOut.tally_front hword h.cut

/-- The numbers of the operands in the script. -/
theorem numbers_parts (h : s.IsPlaced line u source front before number t written) :
    ∃ after, LinePart.numbers (Translation.parts line s) = LinePart.numbers before ++ number :: after := by
  obtain ⟨after, hparts⟩ := h.parts_eq
  exact ⟨LinePart.numbers after, by rw [hparts, LinePart.numbers_append, LinePart.numbers_operand]⟩

end IsPlaced

/-! ## The form of the statement -/

section Forms

variable (h : s.Locates word source front t before) (hword : IsWord word)
  (hplaced : s.IsPlaced line u source front before number t written)
include h hword hplaced

/-- The words in front of an operand of a script line are those of the form and of the operands there. -/
theorem tally_before (hstep : Translation.hasNumeralStep s = true → 3 ∉ LinePart.numbers before) :
    tally word (LinePart.flatten before) = LinePart.frameTally word front +
      ((LinePart.numbers before).map (s.operandTally word)).sum := by
  obtain ⟨after, hparts⟩ := hplaced.parts_eq
  have hcut := Translation.isCutApart_parts line s
  rw [hparts] at hcut
  rw [← h.frames]
  refine LinePart.tally_flatten hword hcut.of_append_left fun n u hu => ?_
  have hmem : .operand n u ∈ Translation.parts line s := by
    rw [hparts]
    exact List.mem_append_left _ hu
  refine h.tally_of_mem hword hmem fun hnumeral hn => hstep hnumeral ?_
  -- the numeral would be in front of the operand
  have hpair : (u, n) ∈ before.filterMap LinePart.operand? := List.mem_filterMap.2 ⟨_, hu, rfl⟩
  rw [← hn]
  exact List.mem_map.2 ⟨_, hpair, rfl⟩

theorem tally_written (hstep : Translation.hasNumeralStep s = true → number ≠ 3) :
    tally word written = s.operandTally word number := by
  obtain ⟨after, hparts⟩ := hplaced.parts_eq
  have hmem : .operand number written ∈ Translation.parts line s := by simp [hparts]
  exact h.tally_of_mem hword hmem hstep

/-- The occurrences in the operand of the script are numbered by those in front of it. -/
theorem keepsNumbers_of_sums
    (hstep : Translation.hasNumeralStep s = true → 3 ∉ LinePart.numbers before)
    (hsums : ∀ k, ((LinePart.numbers before).map (s.operandTally word)).sum ≤ k →
      k < ((LinePart.numbers before).map (s.operandTally word)).sum + tally word written →
      (((List.range number).map (s.operandTally word)).sum ≤ k ∧
          k < ((List.range number).map (s.operandTally word)).sum + s.operandTally word number) ∨
        LinePart.frameTally word source + ((List.range s.operands.length).map (s.operandTally word)).sum ≤
          LinePart.frameTally word front + k) :
    LinePart.KeepsNumbers word source front t before written := by
  have ht : tally word t = s.operandTally word number := hplaced.tally_eq
  have hfront := hplaced.tally_front hword
  have hbefore := tally_before h hword hplaced hstep
  have hwhole := hplaced.laidOut.tally_eq hword hplaced.cut
  intro k hle hlt
  -- the frames hold the word equally often, so only the operands count
  rw [hbefore] at hle hlt
  obtain ⟨k, rfl⟩ := Nat.exists_eq_add_of_le ((Nat.le_add_right _ _).trans hle)
  have hk := hsums k (by omega) (by omega)
  rw [hfront, ht, hwhole]
  refine hk.imp (fun hin => ⟨by omega, by omega⟩) fun hlast => ⟨hlast, fun _ => ht ▸ h.own⟩

/-- Statements whose operands have the order of the source. -/
theorem keepsNumbers_of_keepsOrder (hkeeps : Translation.keepsOrder s = true) :
    LinePart.KeepsNumbers word source front t before written := by
  have hnumeral : Translation.hasNumeralStep s = false := by
    cases s <;> first | rfl | cases hkeeps
  have hstep {P : Prop} : Translation.hasNumeralStep s = true → P := by
    rw [hnumeral]
    exact nofun
  obtain ⟨n, hnumbers⟩ := Translation.numbers_parts line s hkeeps
  obtain ⟨after, hparts⟩ := hplaced.numbers_parts
  have hbefore := eq_range_of_append (hparts.symm.trans hnumbers)
  refine keepsNumbers_of_sums h hword hplaced hstep fun k hle hlt => .inl ?_
  rw [tally_written h hword hplaced hstep] at hlt
  rw [hbefore] at hle hlt
  exact ⟨hle, hlt⟩

/-- Statements that exchange two operands, of which only one has the word. -/
theorem keepsNumbers_of_exchanged (hnumbers : LinePart.numbers (Translation.parts line s) = [1, 0])
    (hlength : s.operands.length = 2) (hstep : Translation.hasNumeralStep s = false)
    (honly : s.operandTally word 0 = 0 ∨ s.operandTally word 1 = 0) :
    LinePart.KeepsNumbers word source front t before written := by
  have hstep {P : Prop} : Translation.hasNumeralStep s = true → P := by
    rw [hstep]
    exact nofun
  have hown : 0 < s.operandTally word number := hplaced.tally_eq ▸ h.own
  obtain ⟨after, hparts⟩ := hplaced.numbers_parts
  obtain ⟨j, hj, hbefore, hnumber⟩ := exists_take (hparts.symm.trans hnumbers)
  refine keepsNumbers_of_sums h hword hplaced hstep fun k hle hlt => ?_
  rw [tally_written h hword hplaced hstep] at hlt
  rw [hbefore] at hle hlt
  rw [List.length_cons, List.length_singleton] at hj
  -- the first operand of the script, or the second
  interval_cases j
  all_goals
    obtain rfl := Option.some.inj hnumber
    simp [hlength, List.range_succ] at hle hlt ⊢
    omega

end Forms

/-- The order in which the script of a counting loop with `n` operands writes them, with a word that `c` counts in
    each of them. -/
inductive LoopOrder (c : Nat → Nat) : List Nat → Nat → Prop where
  | plain : LoopOrder c [0, 1, 0, 2, 0] 3
  | numeral (hname : 0 < c 0 → c 3 = 0) : LoopOrder c [0, 1, 0, 2, 0, 3] 4
  | computed (hstop : 0 < c 2 → c 3 = 0) : LoopOrder c [0, 1, 3, 0, 2, 0, 2, 0, 3] 4

/-- Behind the first bound, a word of the variable, of the second bound or of the step is in no other of them, and
    where the script writes the operand again, the source has no more occurrences. -/
theorem LoopOrder.sums {c : Nat → Nat} {l x y : List Nat} {n i m k : Nat} (h : LoopOrder c l n)
    (hstop : 0 < c 2 → c 0 = 0) (hl : x ++ i :: y = l) (hown : 0 < c i) (hm : i ≠ 3 → m = c i)
    (hle : (x.map c).sum ≤ k) (hlt : k < (x.map c).sum + m) :
    (((List.range i).map c).sum ≤ k ∧ k < ((List.range i).map c).sum + c i) ∨ ((List.range n).map c).sum ≤ k := by
  obtain ⟨j, hj, rfl, hi⟩ := exists_take hl
  cases h
  all_goals
    simp only [List.length_cons, List.length_nil] at hj
    interval_cases j
  all_goals
    obtain rfl := Option.some.inj hi
    simp [List.range_succ] at hle hlt hm ⊢
    omega

section Loops

variable {name start stop : Text} {step : Option Text}

/-- A step that is a numeral is written once, at the end. -/
theorem numbers_parts_of_numeral (line : Text) (hstep : Translation.hasNumeralStep (forLoop name start stop step) = true) :
    LinePart.numbers (Translation.parts line (forLoop name start stop step)) = [0, 1, 0, 2, 0, 3] := by
  cases step with
  | none => cases hstep
  | some step =>
    obtain ⟨n, hn⟩ := Option.isSome_iff_exists.1 hstep
    rw [Translation.parts, Translation.loopParts, hn]
    dsimp only
    split <;> rfl

/-- The script of a counting loop writes the operands in one of these orders. -/
theorem loopOrder_parts (line : Text) (h : (forLoop name start stop step).KeepsOrder word source) :
    LoopOrder ((forLoop name start stop step).operandTally word)
      (LinePart.numbers (Translation.parts line (forLoop name start stop step)))
      (forLoop name start stop step).operands.length := by
  obtain ⟨-, hstop, hname⟩ := h
  -- no step, a step that is computed, or a step that is a number
  cases step with
  | none => exact .plain
  | some step =>
    cases hnumeral : Translation.stepNumeral? step with
    | none =>
      have hcomputed : LinePart.numbers (Translation.parts line (forLoop name start stop (some step))) =
          [0, 1, 3, 0, 2, 0, 2, 0, 3] := by
        rw [Translation.parts, Translation.loopParts, hnumeral]
        rfl
      rw [hcomputed]
      exact .computed fun hpos => (hstop hpos).2 step rfl hnumeral
    | some m =>
      have hstep : Translation.hasNumeralStep (forLoop name start stop (some step)) = true := by
        rw [Translation.hasNumeralStep, hnumeral]
        rfl
      rw [numbers_parts_of_numeral line hstep]
      exact .numeral fun hpos => hname hpos step rfl hstep

variable (h : (forLoop name start stop step).Locates word source front t before) (hword : IsWord word)
  (hplaced : (forLoop name start stop step).IsPlaced line u source front before number t written)
include hplaced

theorem not_mem_numbers_before (hstep : Translation.hasNumeralStep (forLoop name start stop step) = true) :
    3 ∉ LinePart.numbers before := by
  obtain ⟨after, hparts⟩ := hplaced.numbers_parts
  obtain ⟨j, hj, hbefore, -⟩ := exists_take (hparts.symm.trans (numbers_parts_of_numeral line hstep))
  rw [hbefore]
  simp only [List.length_cons, List.length_nil] at hj
  interval_cases j <;> decide

include h hword

/-- Counting loops, whose script repeats the variable and the bounds. -/
theorem keepsNumbers_forLoop : LinePart.KeepsNumbers word source front t before written := by
  have hown : 0 < (forLoop name start stop step).operandTally word number := hplaced.tally_eq ▸ h.own
  obtain ⟨after, hparts⟩ := hplaced.numbers_parts
  have horder := loopOrder_parts line h.order
  rw [hparts] at horder
  refine keepsNumbers_of_sums h hword hplaced (not_mem_numbers_before hplaced) fun k hle hlt => ?_
  have hsums := horder.sums (fun hpos => (h.order.2.1 hpos).1) rfl hown
    (fun hne => tally_written h hword hplaced fun _ => hne) hle hlt
  refine hsums.imp_right fun hlast => ?_
  rw [h.order.1, Nat.zero_add]
  exact hlast.trans (Nat.le_add_left _ _)

end Loops

/-- The occurrences of a word that a statement locates have numbers that belong to their operand. -/
theorem Locates.keepsNumbers (h : s.Locates word source front t before) (hword : IsWord word)
    (hplaced : s.IsPlaced line u source front before number t written) :
    LinePart.KeepsNumbers word source front t before written := by
  by_cases hkeeps : Translation.keepsOrder s = true
  · exact keepsNumbers_of_keepsOrder h hword hplaced hkeeps
  · -- only these write their operands in another order, or several times
    cases s with
    | forLoop name start stop step => exact keepsNumbers_forLoop h hword hplaced
    | set value target => exact keepsNumbers_of_exchanged h hword hplaced rfl rfl rfl h.order
    | input prompt target =>
      rcases prompt with - | prompt <;> rcases target with - | target <;> try exact absurd rfl hkeeps
      exact keepsNumbers_of_exchanged h hword hplaced rfl rfl rfl h.order
    | _ => exact absurd rfl hkeeps

end Statement

open Statement

/-! ## Script lines -/

namespace Translation

/-- A line with an operand is not empty. -/
theorem statement_ne_nil (h : parts line s = before ++ .operand number written :: after) : statement line s ≠ [] := by
  cases s with
  | blank =>
    have hmem : LinePart.operand number written ∈ parts line .blank := by simp [h]
    simp [parts] at hmem
  | comment note =>
    rw [statement]
    split <;> simp [text]
  | forLoop name start stop step => simp [statement, forLoop, text]
  | returning v => cases v <;> simp [statement, text]
  | declaration kind name size init =>
    rcases size with - | size <;> rcases init with - | init <;> simp [statement, declaration, text]
  | input prompt target => cases target <;> simp [statement]
  | assignment target operator init => cases init <;> simp [statement]
  | malformed form fault | raw t =>
    rw [statement, verbatim]
    split
    · split
      · next hlast _ =>
        rintro rfl
        cases hlast
      · simp
    · simp
  | _ => simp [statement, opening, text]

/-- A script line with an operand is its parts at the indentation of the source line. -/
theorem scriptLine_eq {line : Line}
    (h : parts line.trimmed (classify line.trimmed) = before ++ .operand number written :: after) :
    scriptLine line = LinePart.line line.leading (before ++ .operand number written :: after) [] := by
  rw [scriptLine, if_neg (by simpa using statement_ne_nil h), LinePart.line, ← h, flatten_parts, List.append_nil]

end Translation

/-! ## Columns of script lines -/

/-- For every operand of a script line there is one of the source. -/
theorem Statement.IsLaidOut.exists_operand (h : s.IsLaidOut u source)
    (hparts : Translation.parts line s = before ++ .operand number written :: after) :
    ∃ t, .operand number t ∈ source := by
  have hmem : .operand number written ∈ Translation.parts line s := by simp [hparts]
  simp only [h.mem_iff]
  obtain ⟨operand, hoperand, -⟩ | ⟨hnumeral, rfl⟩ := Translation.spells_of_mem_parts hmem
  · exact ⟨operand, hoperand⟩
  · match s, hnumeral with
    | .forLoop _ _ _ (some step), _ => exact ⟨step, rfl⟩

/-- Columns on the words of an operand in the script line stay in the operand for the words that the statement
    locates, and for no words but those of which each occurrence in the operand has a number that belongs to it. -/
theorem map?_stays_in_operand (line : Line) (haccepted : (classify line.trimmed).isAccepted = true) :
    let s := classify line.trimmed
    let script := Translation.scriptLine line
    (s.operands ≠ [] → ∃ source, s.IsLaidOut (readText line.trimmed) source) ∧
    ∀ source, s.IsLaidOut (readText line.trimmed) source → LinePart.IsCutApart source →
      ∀ before number written after,
        Translation.parts line.trimmed s = before ++ .operand number written :: after →
        script = LinePart.line line.leading (before ++ .operand number written :: after) [] ∧
        (∃ t, .operand number t ∈ source) ∧
        ∀ front t behind, source = front ++ .operand number t :: behind →
          ∀ word, IsWord word → (isRespelled line.trimmed = true → Text.toLower word ≠ headWord line.trimmed) →
            (s.Locates word source front t before →
              LinePart.KeepsColumns word script line.raw line.leading front t before written) ∧
            (LinePart.KeepsColumns word script line.raw line.leading front t before written ↔
              LinePart.KeepsNumbers word source front t before written) := by
  intro s script
  refine ⟨exists_isLaidOut line.trimmed haccepted, fun source hlaid hcut before number written after hparts => ?_⟩
  have hscript : script = _ := Translation.scriptLine_eq hparts
  refine ⟨hscript, hlaid.exists_operand hparts, fun front t behind hsource word hword hhead => ?_⟩
  -- the line with the white space around it
  obtain ⟨trail, htrail, hraw⟩ := Text.exists_trim_append line.raw
  have hmargin : LinePart.IsMargin line.leading trail :=
    ⟨fun c hc => isWordChar_of_isBlank (Text.isBlank_of_mem_leadingBlanks hc), fun c hc => isWordChar_of_isBlank (htrail c hc)⟩
  have htrim : Text.trim line.trimmed = line.trimmed := Text.trim_trim line.raw
  have hread : LinePart.line line.leading source trail = line.leading ++ (readText line.trimmed ++ trail) := by
    rw [LinePart.line, hlaid.flatten_eq]
  have hwhole : line.leading ++ (line.trimmed ++ trail) = line.raw := hraw
  have hstands : StandsAt word line.raw = StandsAt word (LinePart.line line.leading source trail) := by
    have h := standsAt_readText hword haccepted hmargin.lead hmargin.trail (by rwa [htrim])
    rw [htrim, hwhole] at h
    rw [hread, h]
  have hlength : line.raw.length = (LinePart.line line.leading source trail).length := by
    have h := length_readText line.trimmed
    rw [htrim] at h
    rw [hread, ← hwhole, List.length_append, List.length_append, List.length_append, List.length_append, h]
  have hscriptCut := Translation.isCutApart_parts line.trimmed s
  rw [hparts] at hscriptCut
  rw [hscript]
  subst hsource
  have hiff := LinePart.keepsColumns_iff hword hmargin hcut hscriptCut hstands hlength
  exact ⟨fun hlocates => hiff.2 (hlocates.keepsNumbers hword ⟨hlaid, hcut, ⟨behind, rfl⟩, ⟨after, hparts⟩⟩), hiff⟩

/-- In `set`, a word of the value and of the target leaves the target, which the script has in front. -/
theorem map?_leaves_target :
    (classify (text "set i to a[i]")).isAccepted = true ∧
      (classify (text "set i to a[i]")).IsLaidOut (readText (text "set i to a[i]"))
        [.frame (text "set "), .operand 0 ['i'], .frame (text " to "), .operand 1 (text "a[i]")] ∧
      LinePart.IsCutApart [.frame (text "set "), .operand 0 ['i'], .frame (text " to "), .operand 1 (text "a[i]")] ∧
      Translation.parts (text "set i to a[i]") (classify (text "set i to a[i]")) =
        [.operand 1 (text "a[i]"), .frame (text " = "), .operand 0 ['i'], .frame [';']] ∧
      Translation.scriptLine ⟨1, text "set i to a[i]"⟩ = text "a[i] = i;" ∧
      IsAround (text "a[i] = i;") 2 ['i'] 2 ∧ LinePart.IsInside [] [] (text "a[i]") 2 ∧
      map? (text "a[i] = i;") (text "set i to a[i]") 3 = some 5 ∧
      ¬ LinePart.IsInside [] [.frame (text "set "), .operand 0 ['i'], .frame (text " to ")] (text "a[i]") 4 := by
  have hread : classify (text "set i to a[i]") = .set ['i'] (text "a[i]") := by decide +kernel
  have htext : readText (text "set i to a[i]") = text "set i to a[i]" := by decide +kernel
  have hletter : isWordChar 'i' = true := rfl
  have hspace : isWordChar ' ' = false := rfl
  rw [hread, htext]
  refine ⟨rfl, ⟨by decide +kernel, rfl, fun f hf => ?_⟩, LinePart.isCutApart_of_areFramed rfl, by decide +kernel,
    by decide +kernel,
    ⟨by simp [hletter], by decide +kernel, Nat.le_refl _, by decide⟩, by decide, by decide +kernel, by decide⟩
  simp only [List.mem_cons, LinePart.frame.injEq, reduceCtorEq, false_or, List.not_mem_nil, or_false] at hf
  rcases hf with rfl | rfl
  · exact .word (g := []) (w := text "set") (by simp) (by decide) (isWordedBy_signs (g := [' ']) rfl)
  · exact .word (g := [' ']) (w := text "to") (by simp [hspace]) (by decide) (isWordedBy_signs (g := [' ']) rfl)

/-- The step of a counting loop holds the second `k` of either line. -/
theorem map?_stays_in_operand_step :
    (classify (Line.trimmed ⟨1, text "  for i = k to n step k"⟩)).isAccepted = true ∧
      (forLoop ['i'] ['k'] ['n'] (some ['k'])).Locates ['k']
        [.frame (text "for "), .operand 0 ['i'], .frame (text " = "), .operand 1 ['k'], .frame (text " to "),
          .operand 2 ['n'], .frame (text " step "), .operand 3 ['k']]
        [.frame (text "for "), .operand 0 ['i'], .frame (text " = "), .operand 1 ['k'], .frame (text " to "),
          .operand 2 ['n'], .frame (text " step ")] ['k']
        [.frame (text "for (let "), .operand 0 ['i'], .frame (text " = "), .operand 1 ['k'], .frame (text "; "),
          .frame ['(']] ∧
      LinePart.KeepsColumns ['k'] (text "  for (let i = k; (k) > 0 ? i <= n : i >= n; i += k) \x7b")
        (text "  for i = k to n step k") (text "  ")
        [.frame (text "for "), .operand 0 ['i'], .frame (text " = "), .operand 1 ['k'], .frame (text " to "),
          .operand 2 ['n'], .frame (text " step ")] ['k']
        [.frame (text "for (let "), .operand 0 ['i'], .frame (text " = "), .operand 1 ['k'], .frame (text "; "),
          .frame ['(']] ['k'] := by
  have htrimmed : Line.trimmed ⟨1, text "  for i = k to n step k"⟩ = text "for i = k to n step k" := by decide +kernel
  have hread : classify (text "for i = k to n step k") = .forLoop ['i'] ['k'] ['n'] (some ['k']) := by decide +kernel
  have htext : readText (text "for i = k to n step k") = text "for i = k to n step k" := by decide +kernel
  have hscript : Translation.scriptLine ⟨1, text "  for i = k to n step k"⟩ =
      text "  for (let i = k; (k) > 0 ? i <= n : i >= n; i += k) \x7b" := by decide +kernel
  have hletter : isWordChar 'k' = true := rfl
  have hspace : isWordChar ' ' = false := rfl
  have haccepted : (classify (Line.trimmed ⟨1, text "  for i = k to n step k"⟩)).isAccepted = true := by
    rw [htrimmed, hread]
    rfl
  have hlocates : (forLoop ['i'] ['k'] ['n'] (some ['k'])).Locates ['k']
      [.frame (text "for "), .operand 0 ['i'], .frame (text " = "), .operand 1 ['k'], .frame (text " to "),
        .operand 2 ['n'], .frame (text " step "), .operand 3 ['k']]
      [.frame (text "for "), .operand 0 ['i'], .frame (text " = "), .operand 1 ['k'], .frame (text " to "),
        .operand 2 ['n'], .frame (text " step ")] ['k']
      [.frame (text "for (let "), .operand 0 ['i'], .frame (text " = "), .operand 1 ['k'], .frame (text "; "),
        .frame ['(']] := by
    have hstop : tally ['k'] ['n'] = 0 := by decide +kernel
    have hname : tally ['k'] ['i'] = 0 := by decide +kernel
    refine ⟨by decide, by decide +kernel, by decide +kernel, by decide +kernel, by decide +kernel, fun hpos => ?_,
      fun hpos => ?_⟩
    · exact absurd hstop hpos.ne'
    · exact absurd hname hpos.ne'
  have hcolumns := map?_stays_in_operand ⟨1, text "  for i = k to n step k"⟩ haccepted
  simp only [htrimmed, hread, htext, hscript] at hcolumns
  refine ⟨haccepted, hlocates, ?_⟩
  have hlaid : (forLoop ['i'] ['k'] ['n'] (some ['k'])).IsLaidOut (text "for i = k to n step k")
      [.frame (text "for "), .operand 0 ['i'], .frame (text " = "), .operand 1 ['k'], .frame (text " to "),
        .operand 2 ['n'], .frame (text " step "), .operand 3 ['k']] := by
    refine ⟨by decide +kernel, rfl, fun f hf => ?_⟩
    simp only [List.mem_cons, LinePart.frame.injEq, reduceCtorEq, false_or, List.not_mem_nil, or_false] at hf
    rcases hf with rfl | rfl | rfl | rfl
    · exact .word (g := []) (w := text "for") (by simp) (by decide) (isWordedBy_signs (g := [' ']) rfl)
    · exact isWordedBy_signs rfl
    · exact .word (g := [' ']) (w := text "to") (by simp [hspace]) (by decide) (isWordedBy_signs (g := [' ']) rfl)
    · exact .word (g := [' ']) (w := text "step") (by simp [hspace]) (by decide) (isWordedBy_signs (g := [' ']) rfl)
  have hparts : Translation.parts (text "for i = k to n step k") (forLoop ['i'] ['k'] ['n'] (some ['k'])) =
      List.append [.frame (text "for (let "), .operand 0 ['i'], .frame (text " = "), .operand 1 ['k'],
        .frame (text "; "), .frame ['(']] (.operand 3 ['k'] :: [.frame (text ") > 0 ? "), .operand 0 ['i'],
        .frame (text " <= "), .operand 2 ['n'], .frame (text " : "), .operand 0 ['i'], .frame (text " >= "),
        .operand 2 ['n'], .frame (text "; "), .operand 0 ['i'], .frame (text " += "), .operand 3 ['k'],
        .frame (text ") \x7b")]) := by
    decide +kernel
  have hword : IsWord ['k'] := ⟨List.cons_ne_nil _ _, by simp [hletter]⟩
  have hkept := hcolumns.2 _ hlaid (LinePart.isCutApart_of_areFramed rfl) _ 3 ['k'] _ hparts
  exact (hkept.2.2 _ ['k'] [] rfl ['k'] hword (fun h => absurd h (by decide +kernel))).1 hlocates

end Pseudocode
