import Mathlib.Data.List.Forall2
import Pseudocode.Script.Evaluation

/-!
# The meaning of phrases and sentences

Checking makes an expression of a phrase and a command of a sentence, at the positions of one text.
What a text says does not depend on the positions: `unplaced` forgets them.

`Phrase.Means room p e` says that `p` becomes `e` in every text and at every depth that leaves the
nesting `room` for it; where less is left, `p` becomes `e` or is reported as nested too deeply, and
never as anything else. `Statement.Means inLoop s c` says that `s` becomes `c` inside a function,
where `inLoop` tells whether a loop is around it. Both have one lemma for each way to put phrases and
sentences together, so that no later proof opens a check.
-/

namespace Pseudocode.Script

/-! ## Without positions -/

mutual

/-- The expression without its positions. -/
@[simp] def Expression.unplaced : Expression → Expression
  | .number _ value => .number nowhere value
  | .string _ value => .string nowhere value
  | .bool _ value => .bool nowhere value
  | .null _ => .null nowhere
  | .undefined _ => .undefined nowhere
  | .array _ items => .array nowhere (unplacedAll items)
  | .identifier _ name => .identifier nowhere name
  | .unary _ operator operand => .unary nowhere operator operand.unplaced
  | .binary _ operator left right => .binary nowhere operator left.unplaced right.unplaced
  | .conditional _ test yes no => .conditional nowhere test.unplaced yes.unplaced no.unplaced
  | .assign _ operator target value => .assign nowhere operator target.unplaced value.unplaced
  | .call _ callee operands => .call nowhere callee.unplaced (unplacedAll operands)
  | .index _ object key => .index nowhere object.unplaced key.unplaced
  | .member _ object name => .member nowhere object.unplaced name
  | .construct _ name operands => .construct nowhere name (unplacedAll operands)

/-- The expressions without their positions. -/
@[simp] def Expression.unplacedAll : List Expression → List Expression
  | [] => []
  | e :: es => e.unplaced :: unplacedAll es

end

@[simp] theorem Expression.isTarget_unplaced (e : Expression) : e.unplaced.isTarget = e.isTarget := by
  cases e <;> rfl

/-- The declarator without its positions. -/
def Declarator.unplaced (d : Declarator Expression Position) : Declarator Expression Position :=
  ⟨nowhere, d.name, d.value.map Expression.unplaced⟩

/-- The start of a counting loop without its positions. -/
def LoopStart.unplaced : LoopStart Expression Position → LoopStart Expression Position
  | .declaration kind declarators => .declaration kind (declarators.map Declarator.unplaced)
  | .expression e => .expression e.unplaced

mutual

/-- The command without its positions. -/
@[simp] def Command.unplaced : Command → Command
  | .expression e => .expression e.unplaced
  | .declaration kind declarators => .declaration kind (declarators.map Declarator.unplaced)
  | .function _ name _ parameters isAsync body =>
    .function nowhere name nowhere parameters isAsync (Command.unplacedAll body)
  | .returning _ value => .returning nowhere (value.map Expression.unplaced)
  | .branch test yes no =>
    .branch test.unplaced (Command.unplaced yes) (match no with
      | some no => some (Command.unplaced no)
      | none => none)
  | .whileLoop test body => .whileLoop test.unplaced (Command.unplaced body)
  | .forLoop _ start test update body =>
    .forLoop nowhere (start.map LoopStart.unplaced) (test.map Expression.unplaced)
      (update.map Expression.unplaced) (Command.unplaced body)
  | .block body => .block (Command.unplacedAll body)
  | .breaking _ => .breaking nowhere
  | .continuing _ => .continuing nowhere
  | .empty => .empty

/-- The commands without their positions. -/
@[simp] def Command.unplacedAll : List Command → List Command
  | [] => []
  | c :: cs => Command.unplaced c :: Command.unplacedAll cs

end

/-! ## Checks that may run out of nesting -/

/-- The check finds a value with the property, or reports that something is nested too deeply, which
    it does only if a nesting of `most` is too deep. -/
def Admits {α : Type} (most : Nat) (P : α → Prop) : Checked α → Prop
  | .ok a => P a
  | .error fault => fault.cause = .tooDeep ∧ Program.maxDepth < most

section

variable {α β : Type} {most bound : Nat} {P Q : α → Prop} {R : β → Prop}

theorem Admits.mono {r : Checked α} (h : Admits most P r) (hle : most ≤ bound)
    (hPQ : ∀ a, P a → Q a) : Admits bound Q r := by
  cases r with
  | ok a => exact hPQ a h
  | error fault => exact ⟨h.1, Nat.lt_of_lt_of_le h.2 hle⟩

theorem Admits.bind {r : Checked α} {f : α → Checked β} (h : Admits most P r) (hle : most ≤ bound)
    (hf : ∀ a, P a → Admits bound R (f a)) : Admits bound R (r >>= f) := by
  cases r with
  | ok a => exact hf a h
  | error fault => exact ⟨h.1, Nat.lt_of_lt_of_le h.2 hle⟩

theorem admits_pure {a : α} (h : P a) : Admits most P (pure a) := h

theorem admits_deepen (index : LineIndex) (offset depth : Nat) {levels : Nat} (most : Nat)
    (hlevels : levels ≤ most) :
    Admits (depth + most) (· ≤ depth + most) (deepen index offset depth levels) := by
  unfold deepen
  split
  · exact ⟨rfl, by omega⟩
  · show depth + levels ≤ depth + most
    omega

end

/-! ## Phrases -/

-- the equations of the checks are derived here, once for all lemmas that rewrite with them
attribute [local simp] Phrase.check Phrase.checkAll Statement.check Statement.checkAll

namespace Phrase

/-- The phrase becomes the expression wherever it stands, or is nested too deeply, which it is not if
    `room` levels of nesting are left. -/
def Means (room : Nat) (p : Phrase) (e : Expression) : Prop :=
  ∀ index entered depth, Admits (depth + room) (fun found => found.1.unplaced = e ∧ found.2 ≤ room)
    (p.check index entered depth)

variable {room left right : Nat} {p q r : Phrase} {e f g : Expression}

theorem Means.mono (h : p.Means left e) (hle : left ≤ right) : p.Means right e := by
  intro index entered depth
  exact (h index entered depth).mono (by omega) fun _ hfound => ⟨hfound.1, by omega⟩

/-- A phrase of one token is counted at all levels that are entered for it. -/
private theorem token_means {start : Nat} (make : Position → Expression)
    (hcheck : ∀ index entered depth, p.check index entered depth = (do
      let _ ← deepen index start depth (Level.atom + 1 - entered)
      return (make (index.position start), 0)))
    (hmake : ∀ place, (make place).unplaced = e) : p.Means 12 e := by
  intro index entered depth
  rw [hcheck]
  apply (admits_deepen index start depth 12 (Nat.sub_le _ _)).bind (by omega)
  intro _ _
  exact admits_pure ⟨hmake _, by omega⟩

theorem number_means (start : Nat) (value : Float) :
    (Phrase.number start value).Means 12 (.number nowhere value) :=
  token_means (.number · value) (fun _ _ _ => by rw [check]) fun _ => rfl

theorem string_means (start : Nat) (value : Text) :
    (Phrase.string start value).Means 12 (.string nowhere value) :=
  token_means (.string · value) (fun _ _ _ => by rw [check]) fun _ => rfl

theorem bool_means (start : Nat) (value : Bool) :
    (Phrase.bool start value).Means 12 (.bool nowhere value) :=
  token_means (.bool · value) (fun _ _ _ => by rw [check]) fun _ => rfl

theorem null_means (start : Nat) : (Phrase.null start).Means 12 (.null nowhere) :=
  token_means .null (fun _ _ _ => by rw [check]) fun _ => rfl

theorem undefined_means (start : Nat) : (Phrase.undefined start).Means 12 (.undefined nowhere) :=
  token_means .undefined (fun _ _ _ => by rw [check]) fun _ => rfl

theorem identifier_means (start : Nat) (name : Text) :
    (Phrase.identifier start name).Means 12 (.identifier nowhere name) :=
  token_means (.identifier · name) (fun _ _ _ => by rw [check]) fun _ => rfl

/-- The phrases of a list become the expressions of a list. -/
theorem checkAll_admits {es : List Expression} {ps : List Phrase}
    (h : List.Forall₂ (fun e p => Means room p e) es ps) (index : LineIndex) (depth : Nat) :
    Admits (depth + room) (fun found => Expression.unplacedAll found = es)
      (checkAll index depth ps) := by
  induction h with
  | nil => rfl
  | cons hp _ ih =>
    rw [checkAll]
    apply (hp index 0 depth).bind (Nat.le_refl _)
    rintro ⟨e', links⟩ ⟨he, -⟩
    apply ih.bind (Nat.le_refl _)
    intro es' hes
    apply admits_pure
    rw [Expression.unplacedAll, he, hes]

theorem Means.array {es : List Expression} {ps : List Phrase}
    (h : List.Forall₂ (fun e p => Means room p e) es ps) (start : Nat) :
    (Phrase.array start ps).Means (room + 12) (.array nowhere es) := by
  intro index entered depth
  rw [check]
  apply (admits_deepen index start depth 12 (Nat.sub_le _ _)).bind (by omega)
  intro inside hinside
  apply (checkAll_admits h index _).bind (by omega)
  intro es' hes
  apply admits_pure
  exact ⟨by rw [Expression.unplaced, hes], by omega⟩

theorem Means.construct {es : List Expression} {ps : List Phrase}
    (h : List.Forall₂ (fun e p => Means room p e) es ps) (start : Nat) (name : Text) :
    (Phrase.construct start name ps).Means (room + 12) (.construct nowhere name es) := by
  intro index entered depth
  rw [check]
  apply (admits_deepen index start depth 12 (Nat.sub_le _ _)).bind (by omega)
  intro inside hinside
  apply (checkAll_admits h index _).bind (by omega)
  intro es' hes
  apply admits_pure
  exact ⟨by rw [Expression.unplaced, hes], by omega⟩

theorem Means.group (h : p.Means room e) (start : Nat) :
    (Phrase.group start p).Means (room + 12) e := by
  intro index entered depth
  rw [check]
  apply (admits_deepen index start depth 11 (Nat.sub_le _ _)).bind (by omega)
  intro inside hinside
  apply (h index 0 _).bind (by omega)
  rintro ⟨e', links⟩ ⟨he, -⟩
  exact admits_pure ⟨he, by omega⟩

private theorem linksAt_succ_le (level : Level) (p : Phrase) {links : Nat} (h : links ≤ room) :
    linksAt level p links + 1 ≤ room + 1 := by
  unfold linksAt
  split <;> omega

theorem Means.call (hp : p.Means room e) {es : List Expression} {ps : List Phrase}
    (hps : List.Forall₂ (fun e p => Means room p e) es ps) (start : Nat) :
    (Phrase.call p start ps).Means (room + 12) (.call nowhere e es) := by
  intro index entered depth
  rw [check]
  apply (admits_deepen index p.start depth 11 (Nat.sub_le _ _)).bind (by omega)
  intro inside hinside
  apply (hp index _ _).bind (by omega)
  rintro ⟨e', links⟩ ⟨he, (hlinks : links ≤ room)⟩
  -- the suffixes before this one are links of the same chain
  have hchain := linksAt_succ_le Level.suffixed p hlinks
  apply (admits_deepen index start _ (room + 1) hchain).bind (by omega)
  intro _ _
  apply (checkAll_admits hps index _).bind (by omega)
  intro es' hes
  apply admits_pure
  exact ⟨by simp only [Expression.unplaced, he, hes], by omega⟩

theorem Means.index (hp : p.Means room e) (hq : q.Means room f) (start : Nat) :
    (Phrase.index p start q).Means (room + 12) (.index nowhere e f) := by
  intro index entered depth
  rw [check]
  apply (admits_deepen index p.start depth 11 (Nat.sub_le _ _)).bind (by omega)
  intro inside hinside
  apply (hp index _ _).bind (by omega)
  rintro ⟨e', links⟩ ⟨he, (hlinks : links ≤ room)⟩
  have hchain := linksAt_succ_le Level.suffixed p hlinks
  apply (admits_deepen index start _ (room + 1) hchain).bind (by omega)
  intro _ _
  apply (hq index 0 _).bind (by omega)
  rintro ⟨f', links'⟩ ⟨hf, -⟩
  apply admits_pure
  exact ⟨by simp only [Expression.unplaced, he, hf], by omega⟩

theorem Means.member (hp : p.Means room e) (start namePlace : Nat) (name : Text) :
    (Phrase.member p start namePlace name).Means (room + 12) (.member nowhere e name) := by
  intro index entered depth
  rw [check]
  apply (admits_deepen index p.start depth 11 (Nat.sub_le _ _)).bind (by omega)
  intro inside hinside
  apply (hp index _ _).bind (by omega)
  rintro ⟨e', links⟩ ⟨he, (hlinks : links ≤ room)⟩
  have hchain := linksAt_succ_le Level.suffixed p hlinks
  apply (admits_deepen index start _ (room + 1) hchain).bind (by omega)
  intro _ _
  apply admits_pure
  exact ⟨by simp only [Expression.unplaced, he], by omega⟩

theorem Means.unary (hp : p.Means room e) (start : Nat) (operator : UnaryOperator) :
    (Phrase.unary start operator p).Means (room + 12) (.unary nowhere operator e) := by
  intro index entered depth
  rw [check]
  apply (admits_deepen index start depth 10 (Nat.sub_le _ _)).bind (by omega)
  intro inside hinside
  apply (hp index _ _).bind (by omega)
  rintro ⟨e', links⟩ ⟨he, (hlinks : links ≤ room)⟩
  have hchain := linksAt_succ_le Level.unary p hlinks
  -- the operators of an operand inside of a chain of operators have been counted with the chain
  show Admits _ _ (if entered ≤ Level.unary then _ else _)
  split
  · apply (admits_deepen index start _ (room + 1) hchain).bind (by omega)
    intro _ _
    exact admits_pure ⟨by simp only [Expression.unplaced, he], by omega⟩
  · exact admits_pure ⟨by simp only [Expression.unplaced, he], by omega⟩

theorem Means.binary (hp : p.Means left e) (hq : q.Means right f) (start : Nat)
    (operator : BinaryOperator) :
    (Phrase.binary p start operator q).Means (max left right + 12) (.binary nowhere operator e f) := by
  intro index entered depth
  have hlevel : operator.level + 1 ≤ 9 := by cases operator <;> decide
  rw [check]
  apply (admits_deepen index p.start depth 9 (Nat.le_trans (Nat.sub_le _ _) hlevel)).bind (by omega)
  intro inside hinside
  apply (hp index _ _).bind (by omega)
  rintro ⟨e', links⟩ ⟨he, (hlinks : links ≤ left)⟩
  -- the operand on the left has counted its links, and this one is added
  have hchain := linksAt_succ_le operator.level p hlinks
  apply (admits_deepen index start _ (left + 1) hchain).bind (by omega)
  intro _ _
  apply (hq index _ _).bind (by omega)
  rintro ⟨f', links'⟩ ⟨hf, -⟩
  apply admits_pure
  exact ⟨by simp only [Expression.unplaced, he, hf], by omega⟩

theorem Means.conditional (hp : p.Means room e) (hq : q.Means room f)
    (hr : r.Means room g) :
    (Phrase.conditional p q r).Means (room + 12) (.conditional nowhere e f g) := by
  intro index entered depth
  rw [check]
  apply (admits_deepen index p.start depth 3 (Nat.sub_le _ _)).bind (by omega)
  intro inside hinside
  apply (hp index _ _).bind (by omega)
  rintro ⟨e', _⟩ ⟨he, -⟩
  apply (hq index _ _).bind (by omega)
  rintro ⟨f', _⟩ ⟨hf, -⟩
  apply (hr index _ _).bind (by omega)
  rintro ⟨g', _⟩ ⟨hg, -⟩
  apply admits_pure
  exact ⟨by simp only [Expression.unplaced, he, hf, hg], by omega⟩

/-- An assignment to a target is rejected for its nesting only. -/
theorem Means.assign (hp : p.Means room e) (htarget : e.isTarget = true)
    (hq : q.Means room f) (operator : AssignmentOperator) :
    (Phrase.assign p operator q).Means (room + 12) (.assign nowhere operator e f) := by
  intro index entered depth
  rw [check]
  apply (admits_deepen index p.start depth 2 (Nat.sub_le _ _)).bind (by omega)
  intro inside hinside
  apply (hp index _ _).bind (by omega)
  rintro ⟨e', _⟩ ⟨he, -⟩
  -- what is a target with places is one without
  have htarget' : e'.isTarget = true := by
    rw [← he, Expression.isTarget_unplaced] at htarget
    exact htarget
  simp only [htarget', Bool.not_true, Bool.false_eq_true, if_false]
  apply (hq index _ _).bind (by omega)
  rintro ⟨f', _⟩ ⟨hf, -⟩
  apply admits_pure
  exact ⟨by simp only [Expression.unplaced, he, hf], by omega⟩

/-- Where enough levels are left, a phrase is not rejected. -/
theorem Means.check_eq_ok (h : p.Means room e) (index : LineIndex) (entered : Level) {depth : Nat}
    (hdepth : depth + room ≤ Program.maxDepth) :
    ∃ e' links, p.check index entered depth = .ok (e', links) ∧ e'.unplaced = e := by
  have hcheck := h index entered depth
  cases hresult : p.check index entered depth with
  | ok found =>
    rw [hresult] at hcheck
    exact ⟨found.1, found.2, rfl, hcheck.1⟩
  | error fault =>
    rw [hresult] at hcheck
    exact absurd hcheck.2 (by omega)

/-- A phrase that stands by itself, within the nesting that a program may have. -/
theorem Means.checkWhole (h : p.Means room e) (hroom : room ≤ Program.maxDepth)
    (index : LineIndex) : ∃ e', p.checkWhole index = .ok e' ∧ e'.unplaced = e := by
  obtain ⟨e', links, hcheck, he⟩ := h.check_eq_ok index 0 (show 0 + room ≤ _ by omega)
  refine ⟨e', ?_, he⟩
  simp only [Phrase.checkWhole, bind, Except.bind, hcheck]
  rfl

end Phrase

/-! ## Sentences -/

/-- Only variables and functions have been declared. -/
def Declared.OnlyVariables (declared : Declared) : Prop := ∀ d ∈ declared, d.2 = .var

/-- A variable can be declared next to variables, even one of the same name. -/
theorem Declared.OnlyVariables.add {declared : Declared} (h : declared.OnlyVariables)
    (index : LineIndex) (offset : Nat) (name : Text) :
    ∃ declared', declared.add index offset name .var = .ok declared' ∧ declared'.OnlyVariables := by
  cases hlookup : declared.lookup name with
  | none =>
    refine ⟨(name, .var) :: declared, ?_, ?_⟩
    · simp only [Declared.add, hlookup]
    · intro d hd
      rcases List.mem_cons.1 hd with rfl | hd
      · rfl
      · exact h d hd
  | some earlier =>
    refine ⟨declared, ?_, h⟩
    have hmem : (name, earlier) ∈ declared := by
      obtain ⟨before, after, rfl, -⟩ := List.lookup_eq_some_iff.1 hlookup
      simp
    -- a variable may be declared again
    obtain rfl : earlier = .var := h _ hmem
    simp [Declared.add, hlookup]

namespace Statement

/-- The sentence becomes the command in every text, inside of a function whose blocks declare
    variables only. -/
def Means (inLoop : Bool) (s : Sentence) (c : Command) : Prop :=
  ∀ (index : LineIndex) (declared : Declared), declared.OnlyVariables →
    ∃ c' declared', check ⟨index, inLoop, true⟩ declared s = .ok (c', declared') ∧
      Command.unplaced c' = c ∧ declared'.OnlyVariables

variable {inLoop : Bool} {room : Nat} {p q : Phrase} {e f : Expression} {s s' : Sentence}
  {c c' : Command} {ss : List Sentence} {cs : List Command}

theorem expression_means (h : p.Means room e) (hroom : room ≤ Program.maxDepth) :
    Means inLoop (.expression p) (.expression e) := by
  intro index declared hdeclared
  obtain ⟨e', hcheck, he⟩ := h.checkWhole hroom index
  refine ⟨.expression e', declared, ?_, ?_, hdeclared⟩
  · simp only [check, bind, Except.bind, hcheck]
    rfl
  · rw [Command.unplaced, he]

theorem returning_means (start : Nat) : Means inLoop (.returning start none) (.returning nowhere none) := by
  intro index declared hdeclared
  exact ⟨.returning (index.position start) none, declared, rfl, rfl, hdeclared⟩

theorem returning_some_means (h : p.Means room e) (hroom : room ≤ Program.maxDepth) (start : Nat) :
    Means inLoop (.returning start (some p)) (.returning nowhere (some e)) := by
  intro index declared hdeclared
  obtain ⟨e', hcheck, he⟩ := h.checkWhole hroom index
  refine ⟨.returning (index.position start) (some e'), declared, ?_, ?_, hdeclared⟩
  · simp only [check, Phrase.checkOptional, bind, Except.bind, hcheck, ↓reduceIte]
    rfl
  · simp only [Command.unplaced, Option.map_some, he]

theorem breaking_means (start : Nat) : Means true (.breaking start) (.breaking nowhere) := by
  intro index declared hdeclared
  exact ⟨.breaking (index.position start), declared, rfl, rfl, hdeclared⟩

theorem continuing_means (start : Nat) : Means true (.continuing start) (.continuing nowhere) := by
  intro index declared hdeclared
  exact ⟨.continuing (index.position start), declared, rfl, rfl, hdeclared⟩

theorem checkAll_means (h : List.Forall₂ (fun c s => Means inLoop s c) cs ss) (index : LineIndex)
    (declared : Declared) (hdeclared : declared.OnlyVariables) :
    ∃ cs' declared', checkAll ⟨index, inLoop, true⟩ declared ss = .ok (cs', declared') ∧
      Command.unplacedAll cs' = cs := by
  induction h generalizing declared with
  | nil => exact ⟨[], declared, rfl, rfl⟩
  | cons hs _ ih =>
    obtain ⟨c', declared', hcheck, hc, hdeclared'⟩ := hs index declared hdeclared
    obtain ⟨cs', declared'', hall, hcs⟩ := ih declared' hdeclared'
    refine ⟨c' :: cs', declared'', ?_, ?_⟩
    · simp only [checkAll, bind, Except.bind, hcheck, hall]
      rfl
    · rw [Command.unplacedAll, hc, hcs]

/-- The sentence becomes the command wherever it stands inside of a function, and declares nothing
    there. -/
def Becomes (inLoop : Bool) (s : Sentence) (c : Command) : Prop :=
  ∀ (index : LineIndex) (declared : Declared),
    ∃ c', check ⟨index, inLoop, true⟩ declared s = .ok (c', declared) ∧ Command.unplaced c' = c

theorem Becomes.means (h : Becomes inLoop s c) : Means inLoop s c := by
  intro index declared hdeclared
  obtain ⟨c', hcheck, hc⟩ := h index declared
  exact ⟨c', declared, hcheck, hc, hdeclared⟩

theorem block_becomes (h : List.Forall₂ (fun c s => Means inLoop s c) cs ss) :
    Becomes inLoop (.block ss) (.block cs) := by
  intro index declared
  obtain ⟨cs', declared', hall, hcs⟩ := checkAll_means h index [] (by simp [Declared.OnlyVariables])
  refine ⟨.block cs', ?_, ?_⟩
  · simp only [check, bind, Except.bind, hall]
    rfl
  · rw [Command.unplaced, hcs]

/-- The loops around a function are not around its body. -/
theorem function_means (h : List.Forall₂ (fun c s => Means false s c) cs ss) (start namePlace : Nat)
    (name : Text) (parameters : List Text) (isAsync : Bool) :
    Means inLoop (.function start name namePlace parameters isAsync ss)
      (.function nowhere name nowhere parameters isAsync cs) := by
  intro index declared hdeclared
  obtain ⟨declared', hadd, hdeclared'⟩ := hdeclared.add index namePlace name
  obtain ⟨cs', inside, hall, hcs⟩ :=
    checkAll_means h index (parameters.map fun p => (p, .var)) (by simp [Declared.OnlyVariables])
  refine ⟨.function (index.position start) name (index.position namePlace) parameters isAsync cs',
    declared', ?_, ?_, hdeclared'⟩
  · simp only [check, bind, Except.bind, hadd, hall]
    rfl
  · rw [Command.unplaced, hcs]

theorem branch_means (h : p.Means room e) (hroom : room ≤ Program.maxDepth)
    (hyes : Means inLoop s c) : Means inLoop (.branch p s none) (.branch e c none) := by
  intro index declared hdeclared
  obtain ⟨e', hcheck, he⟩ := h.checkWhole hroom index
  obtain ⟨c', declared', hs, hc, hdeclared'⟩ := hyes index declared hdeclared
  refine ⟨.branch e' c' none, declared', ?_, ?_, hdeclared'⟩
  · simp only [check, bind, Except.bind, hcheck, hs]
    rfl
  · simp only [Command.unplaced, he, hc]

theorem branch_else_means (h : p.Means room e) (hroom : room ≤ Program.maxDepth)
    (hyes : Means inLoop s c) (hno : Means inLoop s' c') :
    Means inLoop (.branch p s (some s')) (.branch e c (some c')) := by
  intro index declared hdeclared
  obtain ⟨e', hcheck, he⟩ := h.checkWhole hroom index
  obtain ⟨yes, declared', hs, hc, hdeclared'⟩ := hyes index declared hdeclared
  obtain ⟨no, declared'', hs', hc', hdeclared''⟩ := hno index declared' hdeclared'
  refine ⟨.branch e' yes (some no), declared'', ?_, ?_, hdeclared''⟩
  · simp only [check, bind, Except.bind, hcheck, hs, hs']
    rfl
  · simp only [Command.unplaced, he, hc, hc']

theorem whileLoop_means (h : p.Means room e) (hroom : room ≤ Program.maxDepth)
    (hbody : Means true s c) : Means inLoop (.whileLoop p s) (.whileLoop e c) := by
  intro index declared hdeclared
  obtain ⟨e', hcheck, he⟩ := h.checkWhole hroom index
  obtain ⟨c', declared', hs, hc, hdeclared'⟩ := hbody index declared hdeclared
  refine ⟨.whileLoop e' c', declared', ?_, ?_, hdeclared'⟩
  · simp only [check, bind, Except.bind, hcheck, hs]
    rfl
  · simp only [Command.unplaced, he, hc]

/-- A counting loop over a variable of its own, which is declared in the scope of the loop only. -/
theorem forLoop_becomes {test update : Phrase} {e' e'' : Expression} (hstart : p.Means room e)
    (htest : test.Means room e') (hupdate : update.Means room e'') (hroom : room ≤ Program.maxDepth)
    (hbody : Becomes true s c) (start namePlace : Nat) (name : Text) :
    Becomes inLoop
      (.forLoop start (some (.declaration .let [⟨namePlace, name, some p⟩])) (some test)
        (some update) s)
      (.forLoop nowhere (some (.declaration .let [⟨nowhere, name, some e⟩])) (some e') (some e'')
        c) := by
  intro index declared
  obtain ⟨first, links, hfirst, he⟩ :=
    hstart.check_eq_ok index Level.assignment (show 0 + room ≤ _ by omega)
  obtain ⟨condition, hcondition, he'⟩ := htest.checkWhole hroom index
  obtain ⟨advance, hadvance, he''⟩ := hupdate.checkWhole hroom index
  obtain ⟨body, hcheck, hc⟩ := hbody index [(name, .let)]
  refine ⟨.forLoop (index.position start)
    (some (.declaration .let [⟨index.position namePlace, name, some first⟩])) (some condition)
    (some advance) body, ?_, ?_⟩
  · simp only [check, LoopStart.check, Declarator.check, Declared.add, List.lookup_nil,
      Phrase.checkOptional, bind, Except.bind, hfirst, hcondition, hadvance, hcheck, pure, Except.pure]
  · simp only [Command.unplaced, Option.map_some, LoopStart.unplaced, List.map_cons, List.map_nil,
      Declarator.unplaced, he, he', he'', hc]

end Statement

end Pseudocode.Script
