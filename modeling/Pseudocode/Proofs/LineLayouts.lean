import Pseudocode.Proofs.LineParts
import Pseudocode.Proofs.LiteralOperands
import Pseudocode.Proofs.Verbatim

/-!
# The operands in a source line

What is read of a line is woven into it: the operands stand there in their order, and in front of them, between
them and behind them there are only white space, signs and the words of the form. Every part of a line shape
that is read in front of the rest weaves what it takes into what the rest weaves.

* `IsWordedBy`            text of white space, signs and given words
* `Weaves`, `IsWoven`     operands in a text, with such texts around them
* `Statement.IsLaidOut`   the parts of the line that a statement is read from
* `exists_isLaidOut`      every accepted line has such parts
-/

namespace Pseudocode

open Column

/-- The text consists of white space, signs and words that are given, in any case. -/
inductive IsWordedBy (words : List Text) : Text → Prop where
  | gap {g : Text} (hg : ∀ c ∈ g, isWordChar c = false) : IsWordedBy words g
  | word {g w t : Text} (hg : ∀ c ∈ g, isWordChar c = false) (hw : w.map Shape.foldCase ∈ words)
      (rest : IsWordedBy words t) : IsWordedBy words (g ++ (w ++ t))

/-- The parts are a text that holds the operands in their order, numbered from a number on, and around them
    nothing but white space, signs and the given words. -/
structure Weaves (words : List Text) (number : Nat) (operands : List Text) (t : Text) (parts : List LinePart) :
    Prop where
  flatten_eq : LinePart.flatten parts = t
  operands_eq : parts.filterMap LinePart.operand? = operands.zipIdx number
  frames : ∀ f, .frame f ∈ parts → IsWordedBy words f

/-- The text can be cut into such parts. -/
def IsWoven (words : List Text) (number : Nat) (operands : List Text) (t : Text) : Prop :=
  ∃ parts, Weaves words number operands t parts

variable {words operands : List Text} {g t u r o : Text} {number : Nat} {c : Char}

theorem isWoven_nil (words : List Text) (number : Nat) : IsWoven words number [] [] :=
  ⟨[], rfl, rfl, nofun⟩

theorem IsWoven.frame (h : IsWoven words number operands t) (hg : IsWordedBy words g) :
    IsWoven words number operands (g ++ t) := by
  obtain ⟨parts, hflatten, hoperands, hframes⟩ := h
  refine ⟨.frame g :: parts, ?_, hoperands, fun f hf => ?_⟩
  · rw [LinePart.flatten_cons, hflatten, LinePart.chars_frame]
  · rcases List.mem_cons.1 hf with hf | hf
    · cases hf
      exact hg
    · exact hframes f hf

theorem IsWoven.operand (h : IsWoven words (number + 1) operands t) (o : Text) :
    IsWoven words number (o :: operands) (o ++ t) := by
  obtain ⟨parts, hflatten, hoperands, hframes⟩ := h
  refine ⟨.operand number o :: parts, ?_, ?_, fun f hf => ?_⟩
  · rw [LinePart.flatten_cons, hflatten, LinePart.chars_operand]
  · rw [List.filterMap_cons, hoperands]
    rfl
  · exact hframes f (by simpa using hf)

theorem IsWoven.append {operands' : List Text} (h : IsWoven words number operands t)
    (h' : IsWoven words (number + operands.length) operands' u) :
    IsWoven words number (operands ++ operands') (t ++ u) := by
  obtain ⟨parts, hflatten, hoperands, hframes⟩ := h
  obtain ⟨parts', hflatten', hoperands', hframes'⟩ := h'
  refine ⟨parts ++ parts', ?_, ?_, fun f hf => ?_⟩
  · rw [LinePart.flatten_append, hflatten, hflatten']
  · rw [List.filterMap_append, hoperands, hoperands', List.zipIdx_append]
  · exact (List.mem_append.1 hf).elim (hframes f) (hframes' f)

/-! ## White space and signs -/

theorem isWordedBy_signs (hg : g.all (fun c => !isWordChar c) = true) : IsWordedBy words g :=
  .gap fun c hc => by simpa using List.all_eq_true.1 hg c hc

theorem isWordedBy_blanks (hg : ∀ c ∈ g, Text.isBlank c = true) : IsWordedBy words g :=
  .gap fun c hc => isWordChar_of_isBlank (hg c hc)

theorem IsWoven.blanks (h : IsWoven words number operands t) (hg : ∀ c ∈ g, Text.isBlank c = true) :
    IsWoven words number operands (g ++ t) := h.frame (isWordedBy_blanks hg)

theorem IsWoven.cons (h : IsWoven words number operands t) (hc : isWordChar c = false) :
    IsWoven words number operands (c :: t) :=
  h.frame (g := [c]) (.gap (by simpa using hc))

theorem isWoven_of_isWordedBy (hg : IsWordedBy words g) : IsWoven words number [] g := by
  have h := (isWoven_nil words number).frame hg
  rwa [List.append_nil] at h

theorem IsWoven.append_gap (h : IsWoven words number operands t) (hg : IsWordedBy words g) :
    IsWoven words number operands (t ++ g) := by
  have hwhole := h.append (isWoven_of_isWordedBy hg)
  rwa [List.append_nil] at hwhole

theorem isWoven_singleton (o : Text) : IsWoven words number [o] o := by
  have h := (isWoven_nil words (number + 1)).operand o
  rwa [List.append_nil] at h

theorem IsWoven.of_trimStart (h : IsWoven words number operands (Text.trimStart t)) :
    IsWoven words number operands t := by
  have hwhole := h.blanks (g := Text.leadingBlanks t) fun c hc => Text.isBlank_of_mem_leadingBlanks hc
  rwa [Text.leadingBlanks_append_trimStart] at hwhole

theorem IsWoven.of_trim (h : IsWoven words number operands (Text.trim t)) : IsWoven words number operands t := by
  obtain ⟨blanks, hblanks, ht⟩ := Text.exists_trim_append t
  have hwhole := (h.append_gap (isWordedBy_blanks hblanks)).blanks (g := Text.leadingBlanks t)
    fun c hc => Text.isBlank_of_mem_leadingBlanks hc
  rwa [ht] at hwhole

theorem IsWoven.of_trimEnd (h : IsWoven words number operands (Text.trimEnd t)) :
    IsWoven words number operands t := by
  have ht := congrArg List.reverse (Text.leadingBlanks_append_trimStart t.reverse)
  rw [List.reverse_append, List.reverse_reverse] at ht
  have hwhole := h.append_gap (g := (Text.leadingBlanks t.reverse).reverse) (isWordedBy_blanks fun c hc =>
    Text.isBlank_of_mem_leadingBlanks (List.mem_reverse.1 hc))
  rwa [show Text.trimEnd t = (Text.trimStart t.reverse).reverse from rfl, ht] at hwhole

/-! ## The parts of line shapes -/

namespace Shape

variable {β : Type} {next : Text → Option β} {b : β}

theorem isWoven_of_blanks (h : blanks next t = some b)
    (hnext : ∀ r, next r = some b → IsWoven words number operands r) : IsWoven words number operands t := by
  obtain ⟨g, r, rfl, hg, hr⟩ := blanks_split h
  exact (hnext r hr).blanks hg

theorem isWoven_of_someBlanks (h : someBlanks next t = some b)
    (hnext : ∀ r, next r = some b → IsWoven words number operands r) : IsWoven words number operands t := by
  obtain ⟨g, r, rfl, -, hg, hr⟩ := someBlanks_split h
  exact (hnext r hr).blanks hg

theorem isWoven_of_dropWord? {word : Text} (h : (dropWord? word t).bind next = some b) (hword : word ∈ words)
    (hnext : ∀ r, next r = some b → IsWoven words number operands r) : IsWoven words number operands t := by
  obtain ⟨r, hr, hread⟩ := Option.bind_eq_some_iff.1 h
  obtain ⟨s, rfl, hs⟩ := map_of_dropWord? hr
  have hspelled : IsWordedBy words ([] ++ (s ++ [])) := .word (by simp) (hs ▸ hword) (.gap (by simp))
  exact (hnext r hread).frame (by simpa using hspelled)

theorem isWoven_of_separator {word : Text} (h : separator word next t = some b) (hword : word ∈ words)
    (hnext : ∀ r, next r = some b → IsWoven words number operands r) : IsWoven words number operands t :=
  isWoven_of_someBlanks h fun _ hr => isWoven_of_dropWord? hr hword fun _ hr' => isWoven_of_someBlanks hr' hnext

theorem isWoven_of_passage (h : passage next t = some (o, b))
    (hnext : ∀ r, next r = some b → IsWoven words (number + 1) operands r) :
    IsWoven words number (o :: operands) t := by
  obtain ⟨r, rfl, -, -, hr⟩ := passage_eq_some h
  exact (hnext r hr).operand o

theorem isWoven_of_closing {ends : List Text} {b : Unit} (h : closing ends t = some b) (hends : ends ⊆ words) :
    IsWoven words number [] t := by
  rw [closing, Option.orElse_eq_orElse, Option.orElse_eq_or, Option.or_eq_some_iff] at h
  rcases h with h | ⟨-, h⟩
  · refine isWoven_of_someBlanks h fun r hr => ?_
    obtain ⟨w, hw, hread⟩ := List.exists_of_findSome?_eq_some hr
    refine isWoven_of_dropWord? hread (hends hw) fun r' hr' => ?_
    rw [Statement.atEnd_eq_some hr']
    exact isWoven_nil _ _
  · rw [Statement.atEnd_eq_some h]
    exact isWoven_nil _ _

theorem isWoven_of_name? {starts : Char → Bool} (h : name? starts t = some (o, r))
    (hrest : IsWoven words (number + 1) operands r) : IsWoven words number (o :: operands) t := by
  rw [name?_eq_some h]
  exact hrest.operand o

end Shape

namespace Statement

open Shape Expression

/-! ## The shapes of statements -/

variable {name value target start stop size called : Text} {step : Option Text}

theorem isWoven_header? (h : header? t = some name) : IsWoven words number [name] t :=
  isWoven_of_someBlanks h fun r hr => by
    split at hr
    · cases hr
    · cases hr
      exact isWoven_singleton _

theorem isWoven_returnValue? (h : returnValue? t = some (some value)) :
    IsWoven words number [Text.trim value] t := by
  cases t with
  | nil => simp [returnValue?] at h
  | cons c r =>
    obtain ⟨v, hv, heq⟩ := Option.map_eq_some_iff.1 h
    cases heq
    refine isWoven_of_someBlanks hv fun u hu => ?_
    split at hu
    · cases hu
    · cases hu
      exact (isWoven_singleton _).of_trim

theorem isWoven_loopBounds? (h : loopBounds? t = some (start, stop, step)) (hto : text "to" ∈ words)
    (hstep : text "step" ∈ words) (hdo : text "do" ∈ words) :
    IsWoven words number (start :: stop :: step.toList) t := by
  have hend : [text "do"] ⊆ words := by simpa using hdo
  refine isWoven_of_blanks h fun r hr => isWoven_of_passage hr fun r hr => isWoven_of_separator hr hto fun r hr => ?_
  refine isWoven_of_passage hr fun r hr => ?_
  rw [Option.orElse_eq_orElse, Option.orElse_eq_or, Option.or_eq_some_iff] at hr
  rcases hr with hr | ⟨-, hr⟩
  · obtain ⟨⟨p, done⟩, hread, heq⟩ := Option.map_eq_some_iff.1 hr
    cases heq
    refine isWoven_of_separator hread hstep fun r hr => isWoven_of_passage hr fun r hr => ?_
    exact isWoven_of_closing hr hend
  · obtain ⟨done, hread, heq⟩ := Option.map_eq_some_iff.1 hr
    cases heq
    exact isWoven_of_closing hread hend

theorem isWoven_of_dropAssignSign? (h : dropAssignSign? t = some r) (hr : IsWoven words number operands r) :
    IsWoven words number operands t := by
  have harrow : isWordChar '←' = false := by decide +kernel
  unfold dropAssignSign? at h
  split at h <;> cases h
  · exact hr.cons rfl
  · exact (hr.cons rfl).cons rfl
  · exact hr.cons harrow

theorem isWoven_forLoop? (h : forLoop? t = some (name, start, stop, step)) (hto : text "to" ∈ words)
    (hstep : text "step" ∈ words) (hdo : text "do" ∈ words) :
    IsWoven words number (name :: start :: stop :: step.toList) t := by
  refine isWoven_of_someBlanks h fun r hr => ?_
  simp only [Option.bind_eq_bind, Option.bind_eq_some_iff, Prod.exists, Option.pure_def, Option.some.injEq,
    Prod.mk.injEq] at hr
  obtain ⟨n, v, hname, w, hw, _, _, _, hbounds, rfl, rfl, rfl, rfl⟩ := hr
  exact isWoven_of_name? hname
    (isWoven_of_dropAssignSign? hw (isWoven_loopBounds? hbounds hto hstep hdo)).of_trimStart

theorem isWoven_condition? {ends : List Text} (h : condition? ends t = some o) (hends : ends ⊆ words) :
    IsWoven words number [o] t := by
  rw [condition?] at h
  split at h
  · split at h
    · next passed done hread =>
      split at h
      · cases h
      · cases h
        exact isWoven_of_blanks hread fun r hr => isWoven_of_passage hr fun r hr => isWoven_of_closing hr hends
    · cases h
  · cases h

theorem isWoven_initialValue? {initial : Option Text} (h : initialValue? t = some initial)
    (hvalue : ∀ v ∈ initial, IsWoven words number operands v) (hnone : initial = none → operands = []) :
    IsWoven words number operands t := by
  unfold initialValue? at h
  split at h
  · cases h
    rw [hnone rfl]
    exact isWoven_nil _ _
  · next r =>
    simp only at h
    split at h
    · cases h
    · cases h
      exact (hvalue _ rfl).of_trimStart.cons rfl
  · cases h

theorem isWoven_declaration? {size initial : Option Text} (h : declaration? t = some (name, size, initial))
    (hvalue : ∀ n, ∀ v ∈ initial, IsWoven words n operands v) (hnone : initial = none → operands = []) :
    IsWoven words number (name :: (size.toList ++ operands)) t := by
  rw [declaration?_eq] at h
  refine isWoven_of_someBlanks h fun r hr => ?_
  obtain ⟨⟨n, u⟩, hname, hr⟩ := Option.bind_eq_some_iff.1 hr
  -- with a size in brackets, or with the initial value right behind the name
  by_cases hsized : ∃ x, Text.trimStart u = '[' :: x
  · obtain ⟨x, hx⟩ := hsized
    rw [hx] at hr
    obtain ⟨⟨s, v⟩, hread, heq⟩ := Option.map_eq_some_iff.1 hr
    cases heq
    refine isWoven_of_name? hname (IsWoven.of_trimStart ?_)
    rw [hx]
    refine (isWoven_of_blanks hread fun r hr => isWoven_of_passage hr fun r hr => ?_).cons rfl
    refine isWoven_of_blanks hr fun r hr => ?_
    obtain ⟨y, hy, hinitial⟩ := Option.bind_eq_some_iff.1 hr
    rw [Text.dropStart?_eq_some hy]
    exact (isWoven_initialValue? hinitial (hvalue _) hnone).of_trimStart.cons rfl
  · rw [not_exists] at hsized
    rw [sizeOrValue?_of_ne hsized] at hr
    obtain ⟨v, hread, heq⟩ := Option.map_eq_some_iff.1 hr
    cases heq
    exact isWoven_of_name? hname (isWoven_initialValue? hread (hvalue _) hnone).of_trimStart

theorem isWoven_set? (h : set? t = some (value, target)) (hto : text "to" ∈ words) :
    IsWoven words number [value, target] t := by
  refine isWoven_of_someBlanks h fun r hr => isWoven_of_passage hr fun r hr => isWoven_of_separator hr hto fun r hr => ?_
  rw [place?_eq_some hr]
  exact isWoven_singleton _

theorem isWoven_declare? (h : declare? t = some (name, value)) (has : text "as" ∈ words) :
    IsWoven words number [name, value] t := by
  refine isWoven_of_someBlanks h fun r hr => ?_
  obtain ⟨⟨n, v⟩, hname, hread⟩ := Option.bind_eq_some_iff.1 hr
  obtain rfl : n = name := by
    obtain ⟨w, -, hw⟩ := separator_eq_some hread
    split at hw
    · simp only [Option.ite_none_right_eq_some, Option.some.injEq, Prod.mk.injEq] at hw
      exact hw.2.1
    · cases hw
  refine isWoven_of_name? hname (isWoven_of_separator hread has fun r hr => ?_)
  split at hr
  · simp only [Option.ite_none_right_eq_some, Option.some.injEq, Prod.mk.injEq] at hr
    obtain ⟨-, -, rfl⟩ := hr
    exact isWoven_singleton _
  · cases hr

/-! ## Lists and parentheses -/

theorem segmentsFrom_ne_nil (depth : Nat) (current : Text) (ts : List Token) : segmentsFrom depth current ts ≠ [] := by
  fun_induction segmentsFrom depth current ts <;> simp_all

theorem join_segmentsFrom (depth : Nat) (current : Text) (ts : List Token) :
    Text.join [','] (segmentsFrom depth current ts) = current.reverse ++ ts.flatMap Token.chars := by
  induction ts generalizing depth current with
  | nil => simp [segmentsFrom, Text.join]
  | cons token ts ih =>
    cases token with
    | literal chars closed => simp [segmentsFrom, ih, Token.chars]
    | word chars => simp [segmentsFrom, ih, Token.chars]
    | sign c =>
      rw [segmentsFrom]
      split
      · simp [ih, Token.chars]
      · split
        · simp [ih, Token.chars]
        · split
          -- the comma ends a segment, and joining puts it back
          · next hcomma =>
            have hc : c = ',' := by
              rw [Bool.and_eq_true, decide_eq_true_eq] at hcomma
              exact hcomma.1
            obtain ⟨p, ps, hps⟩ := List.exists_cons_of_ne_nil (segmentsFrom_ne_nil 0 [] ts)
            have hrest := ih 0 []
            rw [hps, Text.join_cons] at hrest
            rw [hps, Text.join_cons, List.flatMap_cons, List.append_assoc, hrest, hc]
            rfl
          · simp [ih, Token.chars]

theorem isWoven_join (ps : List Text) : IsWoven words number (ps.map Text.trim) (Text.join [','] ps) := by
  have hitems (number : Nat) (ps : List Text) :
      IsWoven words number (ps.map Text.trim) (ps.flatMap ([','] ++ ·)) := by
    induction ps generalizing number with
    | nil => exact isWoven_nil _ _
    | cons p ps ih => exact ((isWoven_singleton (Text.trim p)).of_trim.cons rfl).append (ih (number + 1))
  cases ps with
  | nil => exact isWoven_nil _ _
  | cons p ps =>
    rw [Text.join_cons]
    exact (isWoven_singleton (Text.trim p)).of_trim.append (hitems (number + 1) ps)

theorem isWoven_splitList (t : Text) : IsWoven words number (splitList t) t := by
  have hjoin := join_segmentsFrom 0 [] (tokens t)
  rw [List.reverse_nil, List.nil_append, chars_tokens] at hjoin
  rw [splitList]
  split
  · next hblank =>
    -- one segment without an item
    obtain ⟨p, hp, hempty⟩ := List.map_eq_singleton_iff.1 hblank
    obtain rfl : p = t := by simpa [hp, Text.join] using hjoin
    exact IsWoven.of_trim (hempty ▸ isWoven_nil _ _)
  · have hitems : IsWoven words number _ _ := isWoven_join (segmentsFrom 0 [] (tokens t))
    rwa [hjoin] at hitems

theorem isWoven_of_insideParentheses? {inner : Text} (h : insideParentheses? t = some inner)
    (hinner : IsWoven words number operands inner) : IsWoven words number operands t := by
  have hclosing : isWordChar ')' = false := rfl
  rw [insideParentheses?_eq_some h]
  exact (hinner.append_gap (.gap (g := [')']) (by simpa using hclosing))).cons rfl

theorem isWoven_promptOperand (t : Text) : IsWoven words number (promptOperand t).toList t := by
  have hprompt (p : Text) : IsWoven words number (if p.isEmpty then none else some p).toList p := by
    cases p with
    | nil => exact isWoven_nil _ _
    | cons c p => exact isWoven_singleton _
  refine IsWoven.of_trim ?_
  simp only [promptOperand]
  cases hread : insideParentheses? (Text.trim t) with
  | none => exact hprompt _
  | some inner => exact isWoven_of_insideParentheses? hread (hprompt _).of_trim

/-! ## Keywords -/

theorem isWoven_of_headWord {w : Text} (h : headWord t = w) (hword : w ∈ words)
    (hlower : w.all Char.isLower = true) (hrest : IsWoven words number operands (t.drop w.length)) :
    IsWoven words number operands t := by
  have hfold : (t.takeWhile Text.isNameChar).map foldCase = w := by
    rw [← h, headWord, Text.toLower]
    refine List.map_congr_left fun c hc => ?_
    have hsmall : c.toLower.isLower = true := by
      refine List.all_eq_true.1 hlower _ ?_
      rw [← h]
      exact List.mem_map_of_mem hc
    -- the two other letters that fold to a small one have no small letter themselves
    rw [foldCase, if_neg, if_neg]
    · rintro rfl
      exact absurd hsmall (by decide)
    · rintro rfl
      exact absurd hsmall (by decide)
  have hspelled : IsWordedBy words ([] ++ (t.takeWhile Text.isNameChar ++ [])) :=
    .word (by simp) (hfold ▸ hword) (.gap (by simp))
  have hwhole := hrest.frame (by simpa using hspelled)
  rwa [← h, takeWhile_append_drop_headWord] at hwhole

theorem isWoven_initializer (t : Text) (hinput : text "input" ∈ words) :
    IsWoven words number [(initializer t).operand] t := by
  refine IsWoven.of_trim ?_
  rw [initializer_eq]
  split
  · next h =>
    refine isWoven_of_headWord h.1 hinput rfl ?_
    rw [show (text "input").length = 5 from rfl]
    generalize (Text.trim t).drop 5 = rest
    have hprompt : IsWoven words number (promptOperand rest).toList rest := isWoven_promptOperand rest
    change IsWoven words number [(promptOperand rest).getD []] rest
    cases hread : promptOperand rest with
    | some p => rwa [hread] at hprompt
    | none =>
      -- the prompt is missing at the end of the line
      rw [hread] at hprompt
      have hwhole := hprompt.append (isWoven_singleton [])
      rwa [List.append_nil] at hwhole
  · exact isWoven_singleton _

theorem isWordChar_of_mem_spellings {operator : AssignmentOperator} {sign : Text} (h : sign ∈ operator.spellings) :
    ∀ c ∈ sign, isWordChar c = false := by
  have hsigns : operator.spellings.all (fun sign => sign.all fun c => !isWordChar c) = true := by
    cases operator <;> decide +kernel
  simpa using List.all_eq_true.1 (List.all_eq_true.1 hsigns sign h)

theorem isWoven_assignment? {operator : AssignmentOperator} (h : assignment? t = some (target, operator, value))
    (hvalue : IsWoven words (number + 1) operands value) :
    IsWoven words number (target :: operands) t := by
  obtain ⟨gap, hgap, sign, hsign, rfl⟩ := assignment?_eq_some h
  exact ((hvalue.frame (.gap (isWordChar_of_mem_spellings hsign))).blanks hgap).operand target

theorem isWoven_dropSemicolon (h : IsWoven words number operands (dropSemicolon t)) :
    IsWoven words number operands t := by
  have hsemicolon : isWordChar ';' = false := rfl
  rw [dropSemicolon] at h
  cases hread : Text.dropEnd? [';'] t with
  | none => rwa [hread] at h
  | some r =>
    rw [hread] at h
    rw [Text.dropEnd?_eq_some hread]
    exact h.append_gap (.gap (by simpa using hsemicolon))

theorem isWoven_call? (h : call? t = some called) : IsWoven words number [called] t := by
  unfold call? at h
  split at h
  · cases h
  · next c r =>
    simp only [Option.ite_none_left_eq_some] at h
    obtain ⟨-, h⟩ := h
    split at h
    · simp only [Option.ite_none_left_eq_some, Option.some.injEq] at h
      rw [← h.2]
      exact isWoven_dropSemicolon (isWoven_singleton _).of_trimEnd
    · cases h

theorem isWoven_function? {list : Text} (h : function? t = some (name, list)) :
    IsWoven words number (name :: splitList list) t := by
  have hclosing : isWordChar ')' = false := rfl
  refine isWoven_of_someBlanks h fun r hr => ?_
  simp only [Option.bind_eq_bind, Option.bind_eq_some_iff, Prod.exists] at hr
  obtain ⟨n, v, hname, w, hw, x, hx, hr⟩ := hr
  split at hr
  · cases hr
  · cases hr
    refine isWoven_of_name? hname (IsWoven.of_trimStart ?_)
    rw [Text.dropStart?_eq_some hw, Text.dropEnd?_eq_some hx]
    exact ((isWoven_splitList list).append_gap (.gap (g := [')']) (by simpa using hclosing))).cons rfl

/-! ## Statements -/

/-- A statement that has its shape. -/
def isAccepted : Statement → Bool
  | malformed _ _ | raw _ => false
  | _ => true

/-- The words that the form of a statement writes in the source. -/
def formWords : Statement → List Text
  | header _ => [text "algorithm"]
  | forLoop .. => [text "for", text "to", text "step", text "do"]
  | whileLoop _ => [text "while", text "then", text "do"]
  | branch _ => [text "if", text "then"]
  | elseIf _ => [text "elseif", text "else", text "if", text "then"]
  | function .. => [text "function"]
  | returning _ => [text "return"]
  | declaration kind .. => [kind.word, text "input"]
  | set .. => [text "set", text "to"]
  | declare .. => [text "declare", text "as"]
  | print _ => [text "print"]
  | input .. | assignment .. => [text "input"]
  | _ => []

/-- The parts of the text that a statement is read from: its operands in their order, with the words of its form,
    white space and signs around them. -/
def IsLaidOut (s : Statement) (t : Text) (parts : List LinePart) : Prop := Weaves s.formWords 0 s.operands t parts

/-- The statement can be laid out in a text. -/
def IsWovenInto (s : Statement) (t : Text) : Prop := IsWoven s.formWords 0 s.operands t

variable {s : Statement} {form : Form} {texts : List Text}

theorem ifBalanced_of_isAccepted (h : (ifBalanced form texts s).isAccepted = true) :
    ifBalanced form texts s = s := by
  rw [ifBalanced] at h ⊢
  split
  · next hcause =>
    rw [hcause] at h
    cases h
  · rfl

theorem isWovenInto_withoutKeyword (t : Text) (h : (withoutKeyword t).isAccepted = true) :
    (withoutKeyword t).IsWovenInto t := by
  unfold withoutKeyword at h ⊢
  cases hread : assignment? t with
  | some found =>
    obtain ⟨target, operator, value⟩ := found
    have hwoven : (assignment target operator (initializer value)).IsWovenInto t :=
      isWoven_assignment? hread (isWoven_initializer value List.mem_cons_self)
    rw [hread] at h
    simp only at h ⊢
    split at h
    · rwa [ifBalanced_of_isAccepted h]
    · rwa [ifBalanced_of_isAccepted h]
    · cases h
  | none =>
    rw [hread] at h
    simp only at h ⊢
    cases hcall : call? t with
    | some called =>
      rw [hcall] at h
      simp only at h ⊢
      rw [ifBalanced_of_isAccepted h]
      exact isWoven_call? hcall
    | none =>
      rw [hcall] at h
      cases h

/-- The word that a keyword is; several words end a block. -/
def Keyword.word : Keyword → Text
  | .algorithm => text "algorithm"
  | .endAlgorithm => text "endalgorithm"
  | .ending => []
  | .for => text "for"
  | .while => text "while"
  | .if => text "if"
  | .elseIf => text "elseif"
  | .else => text "else"
  | .function => text "function"
  | .return => text "return"
  | .break => text "break"
  | .continue => text "continue"
  | .declaration kind => kind.word
  | .set => text "set"
  | .declare => text "declare"
  | .print => text "print"
  | .input => text "input"

theorem headWord_eq_word {keyword : Keyword} (h : keyword? t = some keyword) (hending : keyword ≠ .ending) :
    headWord t = keyword.word := by
  have hall : ∀ entry ∈ keywords, entry.2 ≠ .ending → entry.1 = entry.2.word := by decide
  obtain ⟨before, after, htable, -⟩ := List.lookup_eq_some_iff.1 h
  refine hall (headWord t, keyword) ?_ hending
  rw [htable]
  exact List.mem_append_right before List.mem_cons_self

/-- What is read behind a keyword is woven into the rest of the line. -/
structure Follows (keyword : Keyword) (s : Statement) (rest : Text) : Prop where
  mem : keyword.word ∈ s.formWords
  woven : s.IsWovenInto rest

theorem follows_of_ifBalanced {keyword : Keyword} {rest : Text} (h : (ifBalanced form texts s).isAccepted = true)
    (hs : Follows keyword s rest) : Follows keyword (ifBalanced form texts s) rest := by
  rwa [ifBalanced_of_isAccepted h]

theorem isWovenInto_elseIfOf {rest : Text} (h : (elseIfOf (some rest)).isAccepted = true) :
    ∃ c, elseIfOf (some rest) = elseIf c ∧ (elseIf c).IsWovenInto rest := by
  rw [elseIfOf] at h ⊢
  cases hread : condition? [text "then"] rest with
  | none =>
    rw [Option.bind_some, hread] at h
    cases h
  | some c =>
    rw [Option.bind_some, hread] at h
    rw [Option.bind_some, hread]
    have hends : [text "then"] ⊆ (elseIf c).formWords := by
      rw [formWords]
      decide
    exact ⟨c, ifBalanced_of_isAccepted h, isWoven_condition? hread hends⟩

theorem follows_declarationOf {kind : DeclarationKind} {rest : Text} (h : (declarationOf kind rest).isAccepted = true) :
    Follows (.declaration kind) (declarationOf kind rest) rest := by
  cases hread : declaration? rest with
  | none =>
    rw [declarationOf, hread] at h
    cases h
  | some found =>
    obtain ⟨name, size, initial⟩ := found
    -- a size and an initial value together are malformed
    by_cases hboth : size = none ∨ initial = none
    · rw [declarationOf_eq hread hboth] at h ⊢
      refine follows_of_ifBalanced h ⟨List.mem_cons_self, ?_⟩
      refine isWoven_declaration? hread (fun n v hv => ?_) fun hnone => by rw [hnone]; rfl
      rw [Option.mem_def.1 hv]
      exact isWoven_initializer v (List.mem_cons_of_mem _ List.mem_cons_self)
    · rw [not_or] at hboth
      rw [declarationOf_eq_malformed hread (Option.isSome_iff_ne_none.2 hboth.1)
        (Option.isSome_iff_ne_none.2 hboth.2)] at h
      cases h

theorem follows_functionOf {rest : Text} (h : (functionOf rest).isAccepted = true) :
    Follows .function (functionOf rest) rest := by
  rw [functionOf] at h ⊢
  split at h
  · cases h
  · next name list hread =>
    simp only at h ⊢
    split at h
    · cases h
    · exact ⟨List.mem_cons_self, isWoven_function? hread⟩

theorem follows_printOf {rest : Text} (h : (printOf rest).isAccepted = true) (hrest : followsKeyword rest = true) :
    Follows .print (printOf rest) rest := by
  rw [printOf, if_pos hrest] at h ⊢
  refine follows_of_ifBalanced h ?_
  rw [ifBalanced_of_isAccepted h] at h
  split
  · next hempty =>
    rw [if_pos hempty] at h
    cases h
  · refine ⟨List.mem_cons_self, IsWoven.of_trim ?_⟩
    cases hinside : insideParentheses? (Text.trim rest) with
    | none => exact isWoven_splitList _
    | some inner => exact isWoven_of_insideParentheses? hinside (isWoven_splitList inner)

theorem follows_inputOf {rest : Text} (h : (inputOf rest).isAccepted = true) (hrest : followsKeyword rest = true) :
    Follows .input (inputOf rest) rest := by
  have hprompt : IsWoven [text "input"] 0 (promptOperand rest).toList rest := isWoven_promptOperand rest
  rw [inputOf, if_pos hrest] at h ⊢
  cases hread : promptOperand rest with
  | none =>
    rw [hread] at hprompt
    exact ⟨List.mem_cons_self, hprompt⟩
  | some operand =>
    rw [hread] at h hprompt
    simp only at h ⊢
    refine follows_of_ifBalanced h ?_
    split
    · exact ⟨List.mem_cons_self, hprompt⟩
    · exact ⟨List.mem_cons_self, hprompt⟩

/-- Behind a keyword, the operands are woven into the rest of the line. -/
theorem follows_withKeyword {keyword : Keyword} {rest : Text} (t : Text)
    (h : (withKeyword keyword t rest).isAccepted = true) (hoperands : (withKeyword keyword t rest).operands ≠ [])
    (hrest : keyword.spelled = [] ∨ followsKeyword rest = true) :
    keyword ≠ .ending ∧ Follows keyword (withKeyword keyword t rest) rest := by
  cases keyword with
  | algorithm =>
    refine ⟨by simp, ?_⟩
    simp only [withKeyword] at h ⊢
    split at h
    · next hread => exact ⟨List.mem_cons_self, isWoven_header? hread⟩
    · cases h
  | endAlgorithm =>
    simp only [withKeyword] at hoperands
    split at hoperands <;> exact absurd rfl hoperands
  | ending =>
    simp only [withKeyword, endingOf] at hoperands
    split at hoperands
    · exact absurd rfl hoperands
    · split at hoperands <;> exact absurd rfl hoperands
  | «for» =>
    refine ⟨by simp, ?_⟩
    simp only [withKeyword] at h ⊢
    split at h
    · next hread =>
      refine follows_of_ifBalanced h ⟨List.mem_cons_self, isWoven_forLoop? hread ?_ ?_ ?_⟩ <;>
        simp [formWords]
    · cases h
  | «while» =>
    refine ⟨by simp, ?_⟩
    simp only [withKeyword] at h ⊢
    split at h
    · next hread =>
      refine follows_of_ifBalanced h ⟨List.mem_cons_self, isWoven_condition? hread ?_⟩
      simp [formWords]
    · cases h
  | «if» =>
    refine ⟨by simp, ?_⟩
    simp only [withKeyword] at h ⊢
    split at h
    · next hread =>
      refine follows_of_ifBalanced h ⟨List.mem_cons_self, isWoven_condition? hread ?_⟩
      simp [formWords]
    · cases h
  | elseIf =>
    refine ⟨by simp, ?_⟩
    obtain ⟨c, heq, hwoven⟩ := isWovenInto_elseIfOf h
    rw [withKeyword, heq]
    exact ⟨List.mem_cons_self, hwoven⟩
  | «else» =>
    refine ⟨by simp, ?_⟩
    simp only [withKeyword] at h hoperands ⊢
    split at hoperands
    · exact absurd rfl hoperands
    · next hsome =>
      rw [if_neg hsome] at h ⊢
      cases hread : afterElseIf? rest with
      | none =>
        rw [hread] at h
        cases h
      | some after =>
        rw [hread] at h
        obtain ⟨c, heq, hwoven⟩ := isWovenInto_elseIfOf h
        rw [heq]
        -- `else if`: the second word stands behind white space of its own
        refine ⟨by simp [formWords, Keyword.word], isWoven_of_someBlanks hread fun r hr => ?_⟩
        have hif : (dropWord? (text "if") r).bind some = some after := by rw [hr]; rfl
        refine isWoven_of_dropWord? hif (by simp [formWords]) fun r' hr' => ?_
        cases hr'
        exact hwoven
  | function => exact ⟨by simp, follows_functionOf h⟩
  | «return» =>
    refine ⟨by simp, ?_⟩
    simp only [withKeyword] at h hoperands ⊢
    split at h
    · next value hread =>
      refine follows_of_ifBalanced h ⟨List.mem_cons_self, ?_⟩
      cases value with
      | some v => exact isWoven_returnValue? hread
      | none =>
        rw [hread] at hoperands
        simp only at hoperands
        rw [ifBalanced_of_isAccepted h] at hoperands
        exact absurd rfl hoperands
    · cases h
  | «break» =>
    simp only [withKeyword] at hoperands
    split at hoperands <;> exact absurd rfl hoperands
  | «continue» =>
    simp only [withKeyword] at hoperands
    split at hoperands <;> exact absurd rfl hoperands
  | declaration kind => exact ⟨by simp, follows_declarationOf h⟩
  | set =>
    refine ⟨by simp, ?_⟩
    simp only [withKeyword] at h ⊢
    split at h
    · next hread =>
      refine follows_of_ifBalanced h ⟨List.mem_cons_self, isWoven_set? hread ?_⟩
      simp [formWords]
    · cases h
  | declare =>
    refine ⟨by simp, ?_⟩
    simp only [withKeyword] at h ⊢
    split at h
    · next hread => exact ⟨List.mem_cons_self, isWoven_declare? hread (by simp [formWords])⟩
    · cases h
  | print => exact ⟨by simp, follows_printOf h (hrest.resolve_left (by decide))⟩
  | input => exact ⟨by simp, follows_inputOf h (hrest.resolve_left (by decide))⟩

/-! ## Lines -/

theorem word_isLower (keyword : Keyword) : keyword.word.all Char.isLower = true := by
  rcases keyword with - | - | - | - | - | - | - | - | - | - | - | - | ⟨- | - | - | -⟩ | - | - | - | - <;> rfl

/-- A trimmed line is laid out as it is written, or with its first word in lower case. -/
theorem isWovenInto_keyword {keyword : Keyword} (hkeyword : keyword? t = some keyword)
    (h : (withKeyword keyword t (t.drop (headWord t).length)).isAccepted = true)
    (hoperands : (withKeyword keyword t (t.drop (headWord t).length)).operands ≠ []) :
    let s := withKeyword keyword t (t.drop (headWord t).length)
    ((headWord t ≠ text "print" ∧ headWord t ≠ text "input") ∨ followsKeyword (t.drop (headWord t).length) = true) ∧
        s.IsWovenInto t ∨
      (headWord t = text "print" ∨ headWord t = text "input") ∧
        followsKeyword (t.drop (headWord t).length) = false ∧ s.IsWovenInto (lowered t) := by
  intro s
  by_cases hread : keyword.spelled = [] ∨ followsKeyword (t.drop (headWord t).length) = true
  · obtain ⟨hending, hmem, hwoven⟩ := follows_withKeyword t h hoperands hread
    have hword := headWord_eq_word hkeyword hending
    refine .inl ⟨hread.imp_left fun hspelled => ?_, isWoven_of_headWord hword hmem (word_isLower keyword) ?_⟩
    · rw [hword]
      cases keyword with
      | print => cases hspelled
      | input => cases hspelled
      | declaration kind => cases kind <;> decide
      | _ => decide
    · rwa [← hword]
  · obtain ⟨hspelled, hrest⟩ := not_or.1 hread
    rw [Bool.not_eq_true] at hrest
    have hword := headWord_of_keyword? hkeyword hspelled
    have hs : s = withoutKeyword (lowered t) := by
      rw [lowered, hword, ← withKeyword_eq_withoutKeyword t hspelled (hword ▸ hrest), ← hword]
    refine .inr ⟨?_, hrest, ?_⟩
    · rw [hword]
      cases keyword <;> simp_all [Keyword.spelled]
    · rw [hs]
      exact isWovenInto_withoutKeyword _ (hs ▸ h)

/-! ## Lines -/

/-- The text that a line is read as: without white space around it, and if `print` or `input` is part of its first
    name, with this word in lower case. -/
def readText (line : Text) : Text := if isRespelled line then lowered (Text.trim line) else Text.trim line

/-- Every accepted line can be laid out: the operands of its statement stand there in their order, and around
    them only the words of the form, white space and signs. -/
theorem exists_isLaidOut (line : Text) (h : (classify line).isAccepted = true)
    (hoperands : (classify line).operands ≠ []) : ∃ parts, (classify line).IsLaidOut (readText line) parts := by
  have hread (hword : (headWord (Text.trim line) ≠ text "print" ∧ headWord (Text.trim line) ≠ text "input") ∨
      followsKeyword ((Text.trim line).drop (headWord (Text.trim line)).length) = true) :
      readText line = Text.trim line := by
    rw [readText, if_neg]
    rcases hword with hword | hrest
    · simp [isRespelled, hword]
    · simp [isRespelled, hrest]
  change (classify line).IsWovenInto (readText line)
  revert h hoperands
  unfold classify
  split
  · exact fun _ hoperands => absurd rfl hoperands
  · next note ht =>
    intro _ _
    rw [hread (.inl (by rw [ht]; exact ⟨by rintro ⟨⟩, by rintro ⟨⟩⟩)), ht]
    exact (isWoven_singleton (Text.trim note)).of_trim.cons rfl
  · split
    · next keyword hkeyword =>
      intro h hoperands
      rcases isWovenInto_keyword hkeyword h hoperands with ⟨hword, hwoven⟩ | ⟨hword, hrest, hwoven⟩
      · rwa [hread hword]
      · have htext : readText line = lowered (Text.trim line) := by
          rw [readText]
          split
          · rfl
          · next hrespelled =>
            -- the word stands there in lower case already
            by_contra hne
            exact hrespelled (by simp [isRespelled, hword, hrest, Ne.symm hne])
        rwa [htext]
    · next hkeyword =>
      intro h _
      have hword : headWord (Text.trim line) ≠ text "print" ∧ headWord (Text.trim line) ≠ text "input" := by
        constructor <;>
        · intro hword
          rw [keyword?, hword] at hkeyword
          cases hkeyword
      rw [hread (.inl hword)]
      exact isWovenInto_withoutKeyword _ h

end Statement

end Pseudocode
