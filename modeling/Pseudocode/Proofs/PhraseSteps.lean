import Mathlib.Logic.Relation
import Pseudocode.Proofs.Survey

/-!
# The way through a phrase

Inside of a phrase the grammar looks for an operand, or for what makes the operand before it longer.
What it looks for and what the text goes on with decide which token is taken, and the token decides
what is looked for behind it. So there is one way through a text, whatever readers go it.

* `operatorLength?`               the operator that stands behind an operand
* `Wanted.next?`                  the token that is taken, and what is looked for behind it
* `eq_of_run`                     there is one way through a text
* `Reader.Runs`                   a reader goes this way
* `Grammar.runsOperand_phrase`    so does the reader of phrases
-/

namespace Pseudocode.Script

open Reader Grammar

/-- What is looked for inside of a phrase: an operand, what makes the phrase longer behind one, the
    name of a constructor, or the name of a member. -/
inductive Wanted where
  | operand
  | operator
  | constructor
  | member
deriving DecidableEq

/-! ## Operators -/

variable {t : Text} {n : Nat}

/-- The length of the operator that stands behind an operand. -/
def operatorLength? (t : Text) : Option Nat :=
  (binaryLevels.findSome? fun level => (Token.binaryOperator? level t).map Prod.snd).or
    ((Token.assignmentOperator? t).map Prod.snd)

theorem operatorLength?_binary {level : Level} (hlevel : level ∈ binaryLevels)
    {operator : BinaryOperator} (h : Token.binaryOperator? level t = some (operator, n)) :
    operatorLength? t = some n := by
  -- whatever level finds a sign here finds the same one
  have hall (level') (n') (h' : (Token.binaryOperator? level' t).map Prod.snd = some n') : n' = n := by
    obtain ⟨⟨operator', _⟩, hfound, rfl⟩ := Option.map_eq_some_iff.1 h'
    obtain ⟨-, rfl, r, rfl, hr⟩ := binaryOperator?_eq_some_iff.1 h
    obtain ⟨-, rfl, r', heq, hr'⟩ := binaryOperator?_eq_some_iff.1 hfound
    rw [eq_of_binarySign_append hr hr' heq]
  rw [operatorLength?, Option.or_eq_some_iff]
  left
  cases hfound : binaryLevels.findSome? fun level => (Token.binaryOperator? level t).map Prod.snd with
  | none =>
    have hnone := List.findSome?_eq_none_iff.1 hfound level hlevel
    rw [h] at hnone
    cases hnone
  | some n' =>
    obtain ⟨level', -, h'⟩ := List.exists_of_findSome?_eq_some hfound
    rw [hall level' n' h']

theorem operatorLength?_assignment {operator : AssignmentOperator}
    (h : Token.assignmentOperator? t = some (operator, n)) : operatorLength? t = some n := by
  have hnone : binaryLevels.findSome? (fun level => (Token.binaryOperator? level t).map Prod.snd)
      = none := by
    refine List.findSome?_eq_none_iff.2 fun level _ => Option.map_eq_none_iff.2 ?_
    exact binaryOperator?_eq_none_of_assignment h level
  rw [operatorLength?, hnone, h]
  rfl

/-- No operator begins with a sign that another sign follows. -/
theorem operatorLength?_signs {c d : Char} (hc : c ∈ ['+', '-']) (hd : d ∈ ['+', '-']) (t : Text) :
    operatorLength? (c :: d :: t) = none := by
  fin_cases hc <;> fin_cases hd <;> rfl

/-! ## Words -/

/-- What is looked for behind a word that stands in the place of an operand. -/
def Wanted.behindWord? (w : Text) : Option Wanted :=
  if [text "typeof", text "await"].contains w then some .operand
  else if w = text "new" then some .constructor
  else if [text "true", text "false", text "null", text "undefined"].contains w then some .operator
  else if Token.keywords.contains w then none
  else some .operator

/-! ## Tokens -/

/-- The token that a text is gone on with where an operand is looked for. -/
def nextOperand? : Text → Option (Wanted × Nat)
  | [] => none
  | c :: r =>
    if Text.isIdentifierStart c then
      (Wanted.behindWord? (wordStart (c :: r))).map (·, (wordStart (c :: r)).length)
    else if c ∈ ['(', '['] then some (.operand, 1)
    else if c ∈ [')', ']'] then some (.operator, 1)
    else if c ∈ ['!', '-', '+'] then
      (Token.unaryOperator? (c :: r)).map fun found => (.operand, found.2)
    else if c ∈ ['"', '\''] then (Token.string? (c :: r)).map fun found => (.operator, found.2)
    else (Token.number? (c :: r)).map fun found => (.operator, found.2)

/-- The token that a text is gone on with behind an operand. -/
def nextOperator? : Text → Option (Wanted × Nat)
  | [] => none
  | c :: r =>
    if c ∈ ['(', '[', '?', ':', ','] then some (.operand, 1)
    else if c ∈ [')', ']'] then some (.operator, 1)
    else if c = '.' then some (.member, 1)
    else (operatorLength? (c :: r)).map (.operand, ·)

/-- The length of the token that a text is gone on with, and what is looked for behind it. -/
def Wanted.next? : Wanted → Text → Option (Wanted × Nat)
  | .operand, t => nextOperand? t
  | .operator, t => nextOperator? t
  | .constructor, t => (Token.identifier? t).map fun found => (.operator, found.2)
  | .member, t => (Token.name? t).map fun found => (.operator, found.2)

/-- One token further. -/
def Wanted.Step (a b : Wanted × Text) : Prop :=
  ∃ n, a.1.next? a.2 = some (b.1, n) ∧ b.2 = skip (a.2.drop n)

/-- Some tokens further. -/
abbrev Wanted.Run : Wanted × Text → Wanted × Text → Prop := Relation.ReflTransGen Wanted.Step

open Wanted

theorem rightUnique_step : Relator.RightUnique Step := by
  rintro a b b' ⟨n, hnext, hrest⟩ ⟨n', hnext', hrest'⟩
  obtain ⟨hwanted, rfl⟩ := Prod.mk.inj (Option.some.inj (hnext.symm.trans hnext'))
  exact Prod.ext hwanted (hrest.trans hrest'.symm)

/-- The ways from a place end at one place. -/
theorem eq_of_run {a b b' : Wanted × Text} (h : Run a b) (h' : Run a b')
    (hb : b.1.next? b.2 = none) (hb' : b'.1.next? b'.2 = none) : b = b' := by
  have hstays {b b' : Wanted × Text} (h : Run b b') (hb : b.1.next? b.2 = none) : b = b' := by
    rcases h.cases_head with heq | ⟨_, ⟨n, hnext, -⟩, -⟩
    · exact heq
    · rw [hb] at hnext
      cases hnext
  rcases Relation.ReflTransGen.total_of_right_unique rightUnique_step h h' with hrun | hrun
  · exact hstays hrun hb
  · exact (hstays hrun hb').symm

section

variable {α : Type} {a : α} {c : Char} {w : Text} {wanted : Wanted}

theorem exists_cons_of_wordStart (h : wordStart t = c :: w) : ∃ r, t = c :: r := by
  obtain ⟨r, hr⟩ : wordStart t <+: t := List.takeWhile_prefix _
  rw [h, List.cons_append] at hr
  exact ⟨_, hr.symm⟩

theorem nextOperand?_word (h : wordStart t = c :: w) (hc : Text.isIdentifierStart c = true) :
    nextOperand? t = (Wanted.behindWord? (wordStart t)).map (·, (wordStart t).length) := by
  obtain ⟨r, rfl⟩ := exists_cons_of_wordStart h
  exact if_pos hc

theorem nextOperand?_wordOf {table : List (Text × α)}
    (htable : ∀ w ∈ table.map Prod.fst, Wanted.behindWord? w = some wanted ∧
      w.head?.any Text.isIdentifierStart = true)
    (h : Token.wordOf? table t = some (a, n)) : nextOperand? t = some (wanted, n) := by
  obtain ⟨a', hlookup, hfound⟩ := Option.map_eq_some_iff.1 h
  obtain ⟨-, rfl⟩ := Prod.mk.inj hfound
  have hmem : wordStart t ∈ table.map Prod.fst := by
    obtain ⟨before, after, htable, -⟩ := List.lookup_eq_some_iff.1 hlookup
    rw [htable]
    simp
  obtain ⟨hbehind, hhead⟩ := htable _ hmem
  obtain ⟨c, hc, hstart⟩ := (Option.any_eq_true ..).1 hhead
  rw [nextOperand?_word (List.cons_head?_tail hc).symm hstart, hbehind]
  rfl

theorem nextOperand?_unary {operator : UnaryOperator}
    (h : Token.unaryOperator? t = some (operator, n)) : nextOperand? t = some (.operand, n) := by
  by_cases hsign : ∃ c r, t = c :: r ∧ c ∈ ['!', '-', '+']
  · obtain ⟨c, r, rfl, hc⟩ := hsign
    have hnext : nextOperand? (c :: r) =
        (Token.unaryOperator? (c :: r)).map fun found => (Wanted.operand, found.2) := by
      fin_cases hc <;> rfl
    rw [hnext, h]
    rfl
  · have hword : Token.wordOf? [(text "typeof", UnaryOperator.typeOf), (text "await", .await)] t =
        some (operator, n) := by
      unfold Token.unaryOperator? at h
      split at h
      case h_4 => exact h
      all_goals exact absurd ⟨_, _, rfl, by decide⟩ hsign
    exact nextOperand?_wordOf (by decide) hword

theorem nextOperand?_string (h : Token.string? t = some (w, n)) :
    nextOperand? t = some (.operator, n) := by
  cases t with
  | nil => cases h
  | cons c r =>
    have hquote : c ∈ ['"', '\''] := by
      by_contra hquote
      rw [string?_eq_none hquote] at h
      cases h
    have hnext : nextOperand? (c :: r) =
        (Token.string? (c :: r)).map fun found => (Wanted.operator, found.2) := by
      fin_cases hquote <;> rfl
    rw [hnext, h]
    rfl

theorem nextOperand?_number {x : Float} (h : Token.number? t = some (x, n)) :
    nextOperand? t = some (.operator, n) := by
  cases t with
  | nil => cases h
  | cons c r =>
    have hstart : c.isDigit = true ∨ c = '.' := by
      by_contra hnot
      rw [not_or, Bool.not_eq_true] at hnot
      rw [number?_eq_none hnot.1 hnot.2] at h
      cases h
    have hne (d : Char) (hd : d.isDigit = false ∧ d ≠ '.') : c ≠ d := by
      rintro rfl
      simp [hd] at hstart
    -- a digit or a point begins nothing but a number
    have hword : Text.isIdentifierStart c = false := by
      rcases hstart with hdigit | rfl
      · refine Bool.eq_false_iff.2 fun hword => ?_
        simp only [Text.isIdentifierStart, Bool.or_eq_true, decide_eq_true_eq] at hword
        rcases hword with (halpha | rfl) | rfl
        · rw [Text.isDigit_of_isAlpha halpha] at hdigit
          cases hdigit
        · cases hdigit
        · cases hdigit
      · rfl
    have hnext : nextOperand? (c :: r) =
        (Token.number? (c :: r)).map fun found => (Wanted.operator, found.2) := by
      simp [nextOperand?, hword, hne]
    rw [hnext, h]
    rfl

theorem nextOperand?_identifier (h : Token.identifier? t = some (w, n)) :
    nextOperand? t = some (.operator, n) := by
  obtain ⟨hname, hkeyword⟩ := Option.filter_eq_some_iff.1 h
  unfold Token.name? at hname
  split at hname
  · cases hname
  · next c r =>
    obtain ⟨hstart, hfound⟩ := Option.ite_none_right_eq_some.1 hname
    obtain ⟨rfl, rfl⟩ := Prod.mk.inj (Option.some.inj hfound)
    -- the name is no keyword, so an operator is wanted behind it
    have hbehind : Wanted.behindWord? (wordStart (c :: r)) = some .operator := by
      generalize wordStart (c :: r) = w at hkeyword
      simp only [decide_eq_true_eq] at hkeyword
      have hne (v : Text) (hv : v ∈ Token.keywords) : w ≠ v := fun h => hkeyword (h ▸ hv)
      simp [Wanted.behindWord?, hkeyword, hne (text "typeof") (by decide),
        hne (text "await") (by decide), hne (text "new") (by decide)]
    rw [nextOperand?, if_pos hstart, hbehind]
    rfl

theorem operatorLength?_eq_none (hc : c ∉ operatorStarts) (r : Text) :
    operatorLength? (c :: r) = none := by
  rw [operatorLength?, assignmentOperator?_eq_none hc, Option.map_none, Option.or_none,
    List.findSome?_eq_none_iff]
  intro level _
  rw [binaryOperator?_eq_none hc, Option.map_none]

theorem nextOperator?_operator (h : operatorLength? t = some n) :
    nextOperator? t = some (.operand, n) := by
  cases t with
  | nil => cases h
  | cons c r =>
    have hstart : c ∈ operatorStarts := by
      by_contra hc
      rw [operatorLength?_eq_none hc] at h
      cases h
    have hnext : nextOperator? (c :: r) = (operatorLength? (c :: r)).map (Wanted.operand, ·) := by
      fin_cases hstart <;> rfl
    rw [hnext, h]
    rfl

end

/-! ## Readers -/

namespace Reader

variable {α β : Type}

/-- Where the first thing is looked for, the reader goes on from token to token, and one of the others
    is looked for behind what it reads. -/
def Runs (wanted : Wanted) (next : List Wanted) (r : Reader α) : Prop :=
  ∀ c a c', (r c).result = some (a, c') → ∃ w ∈ next, Run (wanted, c.rest) (w, c'.rest)

variable {r s : Reader α} {f : α → Reader β} {step : α → Reader α} {fuel : Nat}
  {scan : Text → Option (α × Nat)} {wanted w : Wanted} {next next' : List Wanted}

theorem Runs.mono (h : Runs wanted next r) (hsub : next ⊆ next') : Runs wanted next' r := by
  intro c a c' hresult
  obtain ⟨w, hw, hrun⟩ := h c a c' hresult
  exact ⟨w, hsub hw, hrun⟩

theorem runs_pure (a : α) : Runs wanted [wanted] (pure a) := by
  intro c a' c' hresult
  obtain ⟨-, rfl⟩ := Prod.mk.inj (Option.some.inj hresult)
  exact ⟨wanted, by simp, .refl⟩

theorem runs_place : Runs wanted [wanted] place := by
  intro c a c' hresult
  obtain ⟨-, rfl⟩ := Prod.mk.inj (Option.some.inj hresult)
  exact ⟨wanted, by simp, .refl⟩

theorem Runs.bind_of (h : Runs wanted next r) (hf : ∀ w ∈ next, ∀ a, Runs w next' (f a)) :
    Runs wanted next' (r >>= f) := by
  intro c b c'' hresult
  rw [result_bind, Option.bind_eq_some_iff] at hresult
  obtain ⟨⟨a, c'⟩, hr, hb⟩ := hresult
  obtain ⟨w, hw, hrun⟩ := h c a c' hr
  obtain ⟨w', hw', hrun'⟩ := hf w hw a c' b c'' hb
  exact ⟨w', hw', hrun.trans hrun'⟩

theorem Runs.bind (h : Runs wanted [w] r) (hf : ∀ a, Runs w next (f a)) :
    Runs wanted next (r >>= f) :=
  h.bind_of fun _ hw => List.mem_singleton.1 hw ▸ hf

theorem Runs.part (h : Runs wanted next r) : Runs wanted next (part r) := by
  intro c a c' hresult
  rw [result_part] at hresult
  exact h c a c' hresult

theorem runs_oneOf {readers : List (Reader α)} (h : ∀ r ∈ readers, Runs wanted next r) :
    Runs wanted next (oneOf readers) := by
  intro c a c' hresult
  obtain ⟨r, hr, hread⟩ := oneOf_eq_some hresult
  exact h r hr c a c' hread

theorem Runs.optional (h : Runs wanted next r) : Runs wanted (wanted :: next) (optional r) := by
  intro c a c' hresult
  rw [result_optional] at hresult
  match hr : (r c).result with
  | none =>
    rw [hr] at hresult
    obtain ⟨-, rfl⟩ := Prod.mk.inj (Option.some.inj hresult)
    exact ⟨wanted, by simp, .refl⟩
  | some (_, _) =>
    rw [hr] at hresult
    obtain ⟨-, rfl⟩ := Prod.mk.inj (Option.some.inj hresult)
    obtain ⟨w, hw, hrun⟩ := h _ _ _ hr
    exact ⟨w, List.mem_cons_of_mem _ hw, hrun⟩

/-- What may be missing is no matter where the same is looked for behind it. -/
theorem Runs.optional_same (h : Runs w [w] r) : Runs w [w] (Reader.optional r) :=
  h.optional.mono (by simp)

theorem Runs.iterate (h : ∀ a, Runs w [w] (step a)) (fuel : Nat) (a : α) :
    Runs w [w] (iterate step fuel a) := by
  induction fuel generalizing a with
  | zero => exact runs_pure a
  | succ fuel ih =>
    intro c b c'' hresult
    rw [result_iterate_succ] at hresult
    -- a round that reads nothing is the last
    match hr : (step a c).result with
    | none =>
      rw [hr] at hresult
      obtain ⟨-, rfl⟩ := Prod.mk.inj (Option.some.inj hresult)
      exact ⟨w, by simp, .refl⟩
    | some (_, _) =>
      rw [hr] at hresult
      obtain ⟨_, hw, hfirst⟩ := h a _ _ _ hr
      obtain rfl := List.mem_singleton.1 hw
      obtain ⟨_, hw', hrest⟩ := ih _ _ _ _ hresult
      exact ⟨_, hw', hfirst.trans hrest⟩

theorem Runs.many (h : Runs w [w] r) (fuel : Nat) : Runs w [w] (many fuel r) :=
  (Runs.iterate (fun _ => h.bind fun _ => runs_pure _) fuel []).bind fun _ => runs_pure _

theorem runs_token (h : ∀ t a n, scan t = some (a, n) → wanted.next? t = some (w, n)) :
    Runs wanted [w] (token scan) := by
  intro c a c' hresult
  rw [result_token] at hresult
  obtain ⟨⟨a', n⟩, hscan, heq⟩ := Option.map_eq_some_iff.1 hresult
  obtain ⟨-, rfl⟩ := Prod.mk.inj heq
  exact ⟨w, by simp, .single ⟨n, h _ _ _ hscan, rfl⟩⟩

theorem runs_sign {c : Char} (h : ∀ r, wanted.next? (c :: r) = some (w, 1)) :
    Runs wanted [w] (sign c) := by
  refine runs_token fun t _ n hscan => ?_
  obtain ⟨hhead, heq⟩ := Option.ite_none_right_eq_some.1 hscan
  obtain ⟨-, rfl⟩ := Prod.mk.inj (Option.some.inj heq)
  rw [← List.cons_head?_tail hhead]
  exact h t.tail

end Reader

/-! ## The grammar -/

namespace Grammar

variable {fuel : Nat} {self : Reader Phrase}

/-- A reader of whole operands. -/
abbrev RunsOperand {α : Type} (r : Reader α) : Prop := Runs .operand [.operator] r

/-- A reader of what makes an operand longer. -/
abbrev RunsOn {α : Type} (r : Reader α) : Prop := Runs .operator [.operator] r

/-- A bracket closes behind an operand, and behind what opens if there is none. -/
theorem runs_closing {c : Char} (hc : c ∈ [')', ']']) {w : Wanted} (hw : w ∈ [.operand, .operator]) :
    Runs w [.operator] (sign c) := by
  refine runs_sign fun r => ?_
  fin_cases hc <;> fin_cases hw <;> rfl

theorem runsOperand_commaList {α : Type} {item : Reader α} (h : RunsOperand item) :
    RunsOperand (commaList fuel item) := by
  have hcomma : Runs .operator [.operand] (sign ',') := runs_sign fun _ => rfl
  exact h.bind fun _ => ((hcomma.bind fun _ => h).many fuel).bind fun _ => runs_pure _

theorem runsOn_callArguments (h : RunsOperand self) : RunsOn (callArguments fuel self) := by
  have hopen : Runs .operator [.operand] (sign '(') := runs_sign fun _ => rfl
  refine (hopen.bind fun _ => (runsOperand_commaList h).optional.bind_of fun w hw _ => ?_).part
  exact (runs_closing (by simp) hw).bind fun _ => runs_pure _

theorem runsOperand_arrayLiteral (h : RunsOperand self) : RunsOperand (arrayLiteral fuel self) := by
  have hopen : Runs .operand [.operand] (sign '[') := runs_sign fun _ => rfl
  have hcomma : Runs .operator [.operand] (sign ',') := runs_sign fun _ => rfl
  refine (runs_place.bind fun _ => hopen.bind fun _ => ?_).part
  -- a last comma leaves the place of an operand empty
  have hitems : Runs .operand [.operand, .operator] (do
      let items ← commaList fuel self
      let _ ← Reader.optional (sign ',')
      return items) := by
    refine (runsOperand_commaList h).bind fun _ => hcomma.optional.bind_of fun w hw _ => ?_
    exact (runs_pure _).mono fun w' hw' => by fin_cases hw <;> simp_all
  have hfound : [Wanted.operand, .operand, .operator] ⊆ [.operand, .operator] := by simp
  refine (hitems.optional.mono hfound).bind_of fun w hw _ => ?_
  exact (runs_closing (by simp) hw).bind fun _ => runs_pure _

theorem runsOperand_construction (h : RunsOperand self) :
    RunsOperand (construction fuel self) := by
  have hnew : Runs .operand [.constructor] (word (text "new")) := by
    refine runs_token fun t _ n hscan => ?_
    obtain ⟨hword, heq⟩ := Option.ite_none_right_eq_some.1 hscan
    obtain ⟨-, rfl⟩ := Prod.mk.inj (Option.some.inj heq)
    rw [Wanted.next?, nextOperand?_word hword rfl, hword]
    rfl
  have hname : Runs .constructor [.operator] (token Token.identifier?) := by
    refine runs_token fun t w n hscan => ?_
    rw [Wanted.next?, hscan]
    rfl
  refine (runs_place.bind fun _ => hnew.part.bind fun _ => hname.part.bind fun _ => ?_).part
  exact (runsOn_callArguments h).optional_same.bind fun _ => runs_pure _

theorem runsOperand_group (h : RunsOperand self) : RunsOperand (group self) := by
  have hopen : Runs .operand [.operand] (sign '(') := runs_sign fun _ => rfl
  refine runs_place.bind fun _ => hopen.bind fun _ => h.bind fun _ => ?_
  exact (runs_closing (by simp) (by simp)).bind fun _ => runs_pure _

theorem runsOperand_single {α : Type} {scan : Text → Option (α × Nat)} {make : Nat → α → Phrase}
    (h : ∀ t a n, scan t = some (a, n) → nextOperand? t = some (.operator, n)) :
    RunsOperand (single scan make) :=
  (runs_place.bind fun _ => (runs_token h).bind fun _ => runs_pure _).part

theorem runsOperand_primary (h : RunsOperand self) : RunsOperand (primary fuel self) := by
  refine runs_oneOf ?_
  simp only [List.forall_mem_cons]
  refine ⟨runsOperand_single fun _ _ _ => nextOperand?_number,
    runsOperand_single fun _ _ _ => nextOperand?_string,
    runsOperand_single fun _ _ _ => nextOperand?_wordOf (by decide),
    runsOperand_single fun _ _ _ => nextOperand?_wordOf (by decide),
    runsOperand_single fun _ _ _ => nextOperand?_wordOf (by decide),
    runsOperand_arrayLiteral h, runsOperand_construction h,
    runsOperand_single fun _ _ _ => nextOperand?_identifier, runsOperand_group h,
    List.forall_mem_nil _⟩

theorem runsOn_suffix (h : RunsOperand self) (object : Phrase) : RunsOn (suffix fuel self object) := by
  have hindex : Runs .operator [.operand] (sign '[') := runs_sign fun _ => rfl
  have hpoint : Runs .operator [.member] (sign '.') := runs_sign fun _ => rfl
  have hname : Runs .member [.operator] (token Token.name?) := by
    refine runs_token fun t w n hscan => ?_
    rw [Wanted.next?, hscan]
    rfl
  refine runs_place.bind fun _ => runs_oneOf ?_
  simp only [List.forall_mem_cons]
  refine ⟨(runsOn_callArguments h).bind fun _ => runs_pure _, Runs.part ?_, Runs.part ?_,
    List.forall_mem_nil _⟩
  · refine hindex.bind fun _ => h.bind fun _ => ?_
    exact (runs_closing (by simp) (by simp)).bind fun _ => runs_pure _
  · exact hpoint.bind fun _ => runs_place.bind fun _ => hname.part.bind fun _ => runs_pure _

theorem runsOperand_unary (h : RunsOperand self) : RunsOperand (unary fuel self) := by
  have hoperator : Runs .operand [.operand] (token Token.unaryOperator?) :=
    runs_token fun _ _ _ => nextOperand?_unary
  have hsuffixed : RunsOperand (suffixed fuel self) :=
    ((runsOperand_primary h).bind fun _ => Runs.iterate (runsOn_suffix h) fuel _).part
  refine Runs.part (Runs.bind (Runs.many (Runs.part ?_) fuel) fun _ =>
    hsuffixed.bind fun _ => runs_pure _)
  exact runs_place.bind fun _ => hoperator.bind fun _ => runs_pure _

theorem runsOperand_chain {operand : Reader Phrase} (h : RunsOperand operand) {level : Level}
    (hlevel : level ∈ binaryLevels) : RunsOperand (chain fuel level operand) := by
  have hoperator : Runs .operator [.operand] (token (Token.binaryOperator? level)) :=
    runs_token fun _ _ _ hscan => nextOperator?_operator (operatorLength?_binary hlevel hscan)
  refine (h.bind fun _ => Runs.iterate (fun _ => ?_) fuel _).part
  exact runs_place.bind fun _ => hoperator.part.bind fun _ => h.bind fun _ => runs_pure _

theorem runsOperand_binary (h : RunsOperand self) : RunsOperand (binary fuel self) := by
  have hlevels (levels : List Level) (hall : levels ⊆ binaryLevels) :
      RunsOperand (levels.foldr (fun level operand => chain fuel level operand) (unary fuel self)) := by
    induction levels with
    | nil => exact runsOperand_unary h
    | cons level levels ih =>
      rw [List.cons_subset] at hall
      exact runsOperand_chain (ih hall.2) hall.1
  exact hlevels binaryLevels (List.Subset.refl _)

theorem runsOperand_conditional (h : RunsOperand self) : RunsOperand (conditional fuel self) := by
  have hmark {c : Char} (hc : c ∈ ['?', ':']) : Runs .operator [.operand] (sign c) := by
    refine runs_sign fun r => ?_
    fin_cases hc <;> rfl
  refine ((runsOperand_binary h).bind fun _ => Runs.bind (Runs.optional_same ?_) fun _ =>
    runs_pure _).part
  refine (hmark (by simp)).bind fun _ => h.bind fun _ => (hmark (by simp)).bind fun _ => ?_
  exact h.bind fun _ => runs_pure _

theorem runsOperand_assignment (h : RunsOperand self) : RunsOperand (assignment fuel self) := by
  have hoperator : Runs .operator [.operand] (token Token.assignmentOperator?) :=
    runs_token fun _ _ _ hscan => nextOperator?_operator (operatorLength?_assignment hscan)
  refine ((runsOperand_conditional h).bind fun _ => Runs.bind (Runs.optional_same ?_) fun _ =>
    runs_pure _).part
  exact hoperator.part.bind fun _ => h.bind fun _ => runs_pure _

/-- Every phrase is gone through in this way. -/
theorem runsOperand_phrase (depth : Nat) : RunsOperand (phrase fuel depth) := by
  induction depth with
  | zero => exact fun _ _ _ hresult => by cases hresult
  | succ depth ih => exact runsOperand_assignment ih

end Grammar

end Pseudocode.Script
