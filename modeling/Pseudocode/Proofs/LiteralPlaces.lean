import Pseudocode.Proofs.BalancedScripts
import Pseudocode.Proofs.RefilledGroups
import Pseudocode.Proofs.Scanning
import Pseudocode.Proofs.Verbatim

/-!
# Where a literal stands in a statement

A statement keeps a string literal of its line in one of its operands. When the literal gets other
contents, the statement that is expected is the same one with these contents in that operand. What is read
instead is told here for the operands of every statement: the expected statement, or none at all, because
the operand has been cut inside of the literal. The latter happens where the contents look like the end of
the operand.

* `Place`, `Place.isCutBy`    operands by how their ends are found
* `Rewords`                   statements that differ in one operand
* `Refilled`                  what a statement has become
-/

namespace Pseudocode

open Expression Shape

/-- The operands of two right-hand sides. -/
inductive Initializer.Rewords (R : Text → Text → Prop) : Initializer → Initializer → Prop where
  | expression {t t' : Text} (h : R t t') : Rewords R (.expression t) (.expression t')
  | prompt {t t' : Text} (h : R t t') : Rewords R (.input (some t)) (.input (some t'))

namespace Statement

/-! ## Operands and their ends -/

/-- The operands of statements, by what their ends are found by. -/
inductive Place where
  /-- The first bound of a counting loop ends in front of `to`. -/
  | start
  /-- The second bound ends in front of `step`, if there is one. -/
  | stop
  /-- The size of an array ends in front of a closing bracket. -/
  | size
  /-- The value of `set` ends in front of `to` and a place. -/
  | given
  /-- The target of an assignment ends in front of the operator. -/
  | target
  /-- Every other operand reaches to the end of its line. -/
  | last
  deriving DecidableEq, Repr

/-- The text begins like what is behind such an operand. -/
def Place.endsAt : Place → Text → Bool
  | start, t => (separator (text "to") some t).isSome
  | stop, t => (separator (text "step") some t).isSome
  | size, t => (Text.dropStart? [']'] t).any fun r => (Text.trimStart r).head? = some '='
  | given, t => (separator (text "to") (fun t =>
      (name? isFoldedNameStart t).bind fun (_, r) => Text.dropStart? ['['] r) t).isSome
  | target, t => t.head? = some '=' ||
      (Text.dropStart? [']'] t).any fun r => (dropAssignSign? (Text.trimStart r)).isSome
  | last, _ => false

/-- Somewhere in the text such an operand could end. -/
def Place.isCutBy (place : Place) (w : Text) : Bool := w.tails.any place.endsAt

/-- The statements are the same but for the operand at the place. -/
inductive Rewords (R : Text → Text → Prop) : Place → Statement → Statement → Prop where
  | start {t t' name stop : Text} {step : Option Text} (h : R t t') :
    Rewords R .start (forLoop name t stop step) (forLoop name t' stop step)
  | stop {t t' name start : Text} {step : Option Text} (h : R t t') :
    Rewords R .stop (forLoop name start t step) (forLoop name start t' step)
  | step {t t' name start stop : Text} (h : R t t') :
    Rewords R .last (forLoop name start stop (some t)) (forLoop name start stop (some t'))
  | whileLoop {t t' : Text} (h : R t t') : Rewords R .last (whileLoop t) (whileLoop t')
  | branch {t t' : Text} (h : R t t') : Rewords R .last (branch t) (branch t')
  | elseIf {t t' : Text} (h : R t t') : Rewords R .last (elseIf t) (elseIf t')
  | returning {t t' : Text} (h : R t t') : Rewords R .last (returning (some t)) (returning (some t'))
  | size {t t' name : Text} {kind : DeclarationKind} {init : Option Initializer} (h : R t t') :
    Rewords R .size (declaration kind name (some t) init) (declaration kind name (some t') init)
  | initial {name : Text} {kind : DeclarationKind} {size : Option Text} {init init' : Initializer}
    (h : init.Rewords R init') :
    Rewords R .last (declaration kind name size (some init)) (declaration kind name size (some init'))
  | given {t t' target : Text} (h : R t t') : Rewords R .given (set t target) (set t' target)
  | receiver {t t' value : Text} (h : R t t') : Rewords R .last (set value t) (set value t')
  | print {t t' : Text} {before behind : List Text} (h : R t t') :
    Rewords R .last (print (before ++ t :: behind)) (print (before ++ t' :: behind))
  | prompt {t t' : Text} {target : Option Text} (h : R t t') :
    Rewords R .last (input (some t) target) (input (some t') target)
  | input {t t' : Text} {prompt : Option Text} (h : R t t') :
    Rewords R .last (input prompt (some t)) (input prompt (some t'))
  | target {t t' : Text} {operator : AssignmentOperator} {value : Initializer} (h : R t t') :
    Rewords R .target (assignment t operator value) (assignment t' operator value)
  | value {target : Text} {operator : AssignmentOperator} {init init' : Initializer} (h : init.Rewords R init') :
    Rewords R .last (assignment target operator init) (assignment target operator init')
  | call {t t' : Text} (h : R t t') : Rewords R .last (call t) (call t')

/-- A loop has a first bound and `set` has a value that are not blank, and no brackets of a target are
    empty. The shapes let other texts in their places. -/
def IsWhole : Statement → Prop
  | forLoop _ t _ _ | set t _ => ∃ c ∈ t, Text.isBlank c = false
  | assignment target _ _ => HasNoEmptyIndex target
  | _ => True

/-- What the statement `s` has become is the statement that is expected, or none, because the new contents
    cut the operand. -/
def Refilled (F : Refill) (s s' : Statement) : Prop :=
  ∃ place expected, s.Rewords F.Changes place expected ∧
    (s' = expected ∨ (place.isCutBy F.contents = true ∧ s'.isShapeless = true))

variable {F : Refill} {s s' : Statement} {place : Place} {form : Form} {texts : List Text}
  {p p' r r' t t' u w w' z : Text} {c : Char}

theorem Rewords.refilled (h : s.Rewords F.Changes place s') : Refilled F s s' := ⟨place, s', h, .inl rfl⟩

theorem Rewords.refilled_cut {expected : Statement} (h : s.Rewords F.Changes place expected)
    (hcut : place.isCutBy F.contents = true) (hshape : s'.isShapeless = true) : Refilled F s s' :=
  ⟨place, expected, h, .inr ⟨hcut, hshape⟩⟩

theorem Place.isCutBy_append (h : place.isCutBy w' = true) : place.isCutBy (w ++ w') = true := by
  obtain ⟨e, he, hends⟩ := List.any_eq_true.1 h
  have hsuffix := ((List.mem_tails _ _).1 he).trans (List.suffix_append w w')
  exact List.any_eq_true.2 ⟨e, (List.mem_tails _ _).2 hsuffix, hends⟩

theorem Place.isCutBy_of_endsAt (h : place.endsAt w = true) : place.isCutBy w = true :=
  List.any_eq_true.2 ⟨w, (List.mem_tails _ _).2 (List.suffix_refl w), h⟩

/-! ## Balanced operands -/

theorem ifBalanced_of_balanced (h : ∀ t ∈ texts, imbalance? t = none) : ifBalanced form texts s = s := by
  rw [Statement.ifBalanced, List.findSome?_eq_none_iff.2 h]

theorem isShapeless_ifBalanced (ht : t ∈ texts) (h : imbalance? t ≠ none) :
    (ifBalanced form texts s).isShapeless = true := by
  rw [Statement.ifBalanced]
  split
  · rfl
  · next hnone => exact absurd (List.findSome?_eq_none_iff.1 hnone t ht) h

theorem balanced_of_isExecutable (h : (ifBalanced form texts s).isExecutable = true) :
    (∀ t ∈ texts, imbalance? t = none) ∧ ifBalanced form texts s = s := by
  rw [Statement.ifBalanced] at h ⊢
  split at h
  · cases h
  · next hnone => exact ⟨List.findSome?_eq_none_iff.1 hnone, rfl⟩

/-- A text that ends inside of the literal is not balanced. -/
theorem imbalance?_cut (hu : IsOutside u) (h : F.contents = w ++ w') :
    imbalance? (u ++ F.quote :: w) ≠ none :=
  imbalance?_open_literal hu F.opens (F.not_closes h)

/-- An operand that ends inside of the literal is found unbalanced. -/
theorem Rewords.refilled_inside {expected : Statement} (h : s.Rewords F.Changes place expected) (hu : IsOutside u)
    (hw : F.contents = w ++ w') (hcut : place.isCutBy w' = true) (ht : u ++ F.quote :: w ∈ texts) :
    Refilled F s (ifBalanced form texts s') := by
  refine h.refilled_cut ?_ (isShapeless_ifBalanced ht (imbalance?_cut hu hw))
  rw [hw]
  exact Place.isCutBy_append hcut

/-! ## Ends inside of the contents -/

/-- What begins a text and holds no quote ends in front of a quote. -/
theorem exists_of_unquoted {k : Text} {q : Char} (h : w ++ q :: z = k ++ r) (hk : ∀ c ∈ k, isQuote c = false)
    (hq : isQuote q = true) : ∃ w', w = k ++ w' ∧ r = w' ++ q :: z := by
  rcases List.append_eq_append_iff.1 h with ⟨s, hs, hr⟩ | ⟨s, hs, hr⟩
  · cases s with
    | nil => exact ⟨[], by simpa using hs.symm, by simpa using hr.symm⟩
    | cons d s =>
      obtain rfl := (List.cons.inj hr).1
      have hquote := hk q (by rw [hs]; simp)
      rw [hq] at hquote
      cases hquote
  · exact ⟨s, hs, hr⟩

theorem separator_inside {β : Type} {next : Text → Option β} {b : β} {word : Text} {q : Char}
    (hword : ∀ c ∈ word, IsNeutral c) (hq : isQuote q = true) (h : separator word next (w ++ q :: z) = some b) :
    ∃ w', next (w' ++ q :: z) = some b ∧ ∀ {γ : Type} {next' : Text → Option γ},
      (next' w').isSome = true → (separator word next' w).isSome = true := by
  obtain ⟨g, s, g', r, ht, hg, hs, hg', hr⟩ := separator_split hword h
  have hcut : w ++ q :: z = (g ++ (s ++ g')) ++ r := by simp [ht]
  have hunquoted : ∀ c ∈ g ++ (s ++ g'), isQuote c = false := by
    simp only [List.forall_mem_append]
    exact ⟨fun c hc => isQuote_of_isBlank (hg.2 c hc), fun c hc => (hs.2 c hc).1,
      fun c hc => isQuote_of_isBlank (hg'.2 c hc)⟩
  obtain ⟨w', rfl, rfl⟩ := exists_of_unquoted hcut hunquoted hq
  refine ⟨w', hr, fun hsome => ?_⟩
  rw [List.append_assoc, List.append_assoc]
  exact isSome_separator hg hs.1 hg' hsome

/-! ## Counting loops -/

theorem neutral_do : ∀ w ∈ [text "do"], ∀ c ∈ w, IsNeutral c := by
  simpa using forall_isNeutral (t := text "do") (by decide)

/-- What is read behind the second bound of a counting loop. -/
def afterStop? (t : Text) : Option (Option Text) :=
  (separator (text "step") (passage (closing [text "do"])) t).map (fun (step, _) => some step) <|>
    (closing [text "do"] t).map fun _ => none

theorem loopBounds?_eq (t : Text) :
    loopBounds? t = blanks (passage (separator (text "to") (passage afterStop?))) t := rfl

/-- In front of a quote a loop does not end, so a step is read or nothing. -/
theorem afterStop?_eq (h : F.quote ∈ t) : afterStop? t =
    (separator (text "step") (passage (closing [text "do"])) t).map fun (step, _) => some step := by
  rw [afterStop?, closing_eq_none_of_mem neutral_do h]
  cases separator (text "step") (passage (closing [text "do"])) t <;> rfl

theorem follows_step : F.Follows (passage (closing [text "do"]))
    (separator (text "step") (passage (closing [text "do"]))) :=
  (ignored_passage rfl).separator (forall_isNeutral (by decide))

theorem ignored_afterStop? : F.Ignored afterStop? := by
  intro u t t' hat hline
  rw [afterStop?_eq hat.mem.1, afterStop?_eq hat.mem.2, Option.isSome_map, Option.isSome_map]
  exact follows_step.ignored hat hline

/-- The literal in the second bound, or in the step. -/
theorem passage_afterStop? {start stop : Text} {step : Option Text} (name : Text) (h : F.Changes r r')
    (hline : '\n' ∉ r) (hread : passage afterStop? r = some (stop, step)) (hstart : imbalance? start = none)
    (hstop : imbalance? stop = none) (hstep : imbalance? (step.getD []) = none) :
    ∃ stop' step', passage afterStop? r' = some (stop', step') ∧ Refilled F (forLoop name start stop step)
      (ifBalanced .forLoop [start, stop', step'.getD []] (forLoop name start stop' step')) := by
  cases passes_passage h ignored_afterStop? hline hread (isOutside_of_balanced hstop) with
  | within hu hat hsame =>
    refine ⟨_, step, hsame, ?_⟩
    rw [ifBalanced_of_balanced]
    · exact (Rewords.stop (hat.changes hu)).refilled
    · simp [hstart, hstep, (hat.changes hu).imbalance?_eq, hstop]
  | cut hu hat hw hend hcut =>
    rw [afterStop?_eq (F := F) (by simp), Option.map_eq_some_iff] at hend
    obtain ⟨_, hend, -⟩ := hend
    obtain ⟨_, -, hendsAt⟩ := separator_inside (forall_isNeutral (by decide)) F.opens hend
    exact ⟨_, _, hcut, (Rewords.stop (hat.changes hu)).refilled_inside hu hw
      (Place.isCutBy_of_endsAt (hendsAt rfl)) (by simp)⟩
  | behind hchanges hr hend hbehind =>
    -- the literal stands behind the bound, so there is a step
    rw [afterStop?_eq hchanges.mem.1, Option.map_eq_some_iff] at hend
    obtain ⟨⟨written, _⟩, hseparator, rfl⟩ := hend
    obtain ⟨k, q, q', ⟨written', _⟩, rfl, rfl, -, hlast, hq, hq', hseparator'⟩ :=
      follows_step.changes hchanges (fun hmem => hline (hr.subset hmem)) hseparator
    have hread' : afterStop? (k ++ q') = some (some written') := by
      rw [afterStop?_eq hchanges.mem.2, hseparator']
      rfl
    have hline' : '\n' ∉ q := fun hmem => hline (hr.subset (List.mem_append_right k hmem))
    obtain ⟨_, hsame, hstep'⟩ := (passes_passage hlast (ignored_closing neutral_do) hline' hq
      (isOutside_of_balanced hstep)).closing neutral_do
    obtain rfl := (Prod.mk.inj (Option.some.inj (hsame.symm.trans hq'))).1
    refine ⟨stop, _, hbehind _ hread', ?_⟩
    rw [ifBalanced_of_balanced]
    · exact (Rewords.step hstep').refilled
    · have hbalanced := hstep'.imbalance?_eq.trans hstep
      simp [hstart, hstop, hbalanced]

theorem follows_to : F.Follows (passage afterStop?) (separator (text "to") (passage afterStop?)) :=
  (ignored_passage rfl).separator (forall_isNeutral (by decide))

/-- The literal in the first bound, or behind it. -/
theorem loopBounds?_refill {start stop : Text} {step : Option Text} (name : Text) (h : F.Changes t t')
    (hline : '\n' ∉ t) (hread : loopBounds? t = some (start, stop, step)) (hstart : imbalance? start = none)
    (hstop : imbalance? stop = none) (hstep : imbalance? (step.getD []) = none)
    (hwhole : ∃ c ∈ start, Text.isBlank c = false) :
    ∃ start' stop' step', loopBounds? t' = some (start', stop', step') ∧ Refilled F (forLoop name start stop step)
      (ifBalanced .forLoop [start', stop', step'.getD []] (forLoop name start' stop' step')) := by
  rw [loopBounds?_eq] at hread ⊢
  cases passes_blanks h follows_to.ignored hline hread (isOutside_of_balanced hstart) hwhole with
  -- in the start, and what follows is read as before
  | within hu hat hsame =>
    refine ⟨_, stop, step, hsame, ?_⟩
    rw [ifBalanced_of_balanced]
    · exact (Rewords.start (hat.changes hu)).refilled
    · simp [hstop, hstep, (hat.changes hu).imbalance?_eq, hstart]
  -- the new text holds the word itself, which ends the start within the literal
  | cut hu hat hw hend hcut =>
    obtain ⟨_, -, hendsAt⟩ := separator_inside (forall_isNeutral (by decide)) F.opens hend
    exact ⟨_, _, _, hcut, (Rewords.start (hat.changes hu)).refilled_inside hu hw
      (Place.isCutBy_of_endsAt (hendsAt rfl)) (by simp)⟩
  -- behind the word, in the stop or in the step
  | behind hchanges hr hend hbehind =>
    obtain ⟨k, q, q', y, rfl, rfl, -, hlast, hq, hq', hread'⟩ :=
      follows_to.changes hchanges (fun hmem => hline (hr.subset hmem)) hend
    obtain ⟨stop', step', hstop', hrefilled⟩ := passage_afterStop? name hlast
      (fun hmem => hline (hr.subset (List.mem_append_right k hmem))) hq hstart hstop hstep
    obtain rfl := Option.some.inj (hq'.symm.trans hstop')
    exact ⟨start, stop', step', hbehind _ hread', hrefilled⟩

/-! ## Names in front -/

/-- A name ends where a text behind it does not continue the word. -/
theorem name?_split {starts : Char → Bool} (hstarts : ∀ c, starts c = true → IsNeutral c) {n : Text}
    (h : name? starts t = some (n, r)) : t = n ++ r ∧ (∀ c ∈ n, IsNeutral c) ∧
      (∃ c n', n = c :: n' ∧ starts c = true) ∧ (∀ c ∈ r.head?, Text.isWordChar c = false) ∧
      ∀ r', (∀ c ∈ r'.head?, Text.isWordChar c = false) → name? starts (n ++ r') = some (n, r') := by
  cases t with
  | nil => cases h
  | cons c t =>
    rw [name?] at h
    split at h
    · next hc =>
      obtain ⟨rfl, rfl⟩ := Prod.mk.inj (Option.some.inj h)
      refine ⟨by rw [List.cons_append, List.takeWhile_append_dropWhile], ?_, ⟨c, _, rfl, hc⟩, ?_, fun r' hr' => ?_⟩
      · refine List.forall_mem_cons.2 ⟨hstarts c hc, fun d hd => ?_⟩
        exact isNeutral_of_isWordChar (List.mem_takeWhile_imp hd)
      · intro d hd
        have hnot := List.head?_dropWhile_not Text.isWordChar t
        rw [Option.mem_def.1 hd] at hnot
        simpa using hnot
      · have hword : ∀ d ∈ t.takeWhile Text.isWordChar, Text.isWordChar d = true :=
          fun d hd => List.mem_takeWhile_imp hd
        rw [List.cons_append, name?, if_pos hc, Text.takeWhile_append_of_ends hword hr',
          Text.dropWhile_append_of_ends hword hr']
    · cases h

/-- A letter is one in lower case. -/
theorem isAlpha_of_isAlpha_toLower (h : c.toLower.isAlpha = true) : c.isAlpha = true := by
  by_cases hupper : c.isUpper = true
  · rw [Char.isAlpha, hupper, Bool.true_or]
  · rwa [Char.toLower_eq_of_not_isUpper hupper] at h

theorem isBlank_of_isFoldedNameStart (h : isFoldedNameStart c = true) : Text.isBlank c = false := by
  have hname : Text.isNameChar c = true := by
    rw [isFoldedNameStart, Bool.or_eq_true, decide_eq_true_eq, foldCase] at h
    rcases h with h | rfl
    · split at h
      · next hc =>
        rw [hc]
        decide
      · split at h
        · next hc =>
          rw [hc]
          decide +kernel
        · simp [Text.isNameChar, Text.isAlphanumeric, Char.isAlphanum, isAlpha_of_isAlpha_toLower h]
    · decide
  by_contra hblank
  have hother := (meaningless_of_isBlank (c := c) (by simpa using hblank)).2.1
  rw [hname] at hother
  cases hother

theorem isNeutral_of_isNameStart (c : Char) (h : isNameStart c = true) : IsNeutral c :=
  isNeutral_of_class (p := isNameStart) (by decide) h

/-- What is read behind white space and a name. -/
def named {β : Type} (next : Text × Text → Option β) : Text → Option β :=
  someBlanks fun t => (name? isFoldedNameStart t).bind next

/-- The name is the same, and what is read behind it is read behind it in the other text. -/
theorem named_refill {β : Type} {next : Text × Text → Option β} {b : β} (h : F.Changes t t')
    (hread : named next t = some b) : ∃ n r r', F.Changes r r' ∧ r <:+ t ∧ next (n, r) = some b ∧
      ∀ b', next (n, r') = some b' → named next t' = some b' := by
  obtain ⟨c, x, rfl, hc, hread⟩ := someBlanks_uncons hread
  obtain ⟨g, x, rfl, hg, hread⟩ := blanks_split hread
  obtain ⟨⟨n, r⟩, hname, hnext⟩ := Option.bind_eq_some_iff.1 hread
  obtain ⟨rfl, hn, ⟨d, m, hd, hstart⟩, hhead, hagain⟩ := name?_split isNeutral_of_isFoldedNameStart hname
  have hfront : ∀ d ∈ c :: g ++ n, isQuote d = false :=
    List.forall_mem_append.2 ⟨List.forall_mem_cons.2 ⟨isQuote_of_isBlank hc, fun d hd => isQuote_of_isBlank (hg d hd)⟩,
      fun d hd => (hn d hd).1⟩
  -- white space and the name stand in front of the literal in both texts
  have hcut : c :: (g ++ (n ++ r)) = c :: g ++ n ++ r := by simp
  rw [hcut] at h ⊢
  obtain ⟨r', rfl, hchanges⟩ := h.behind hfront
  refine ⟨n, r, r', hchanges, List.suffix_append _ r, hnext, fun b' hb' => ?_⟩
  rw [named, List.append_assoc, List.cons_append, someBlanks, if_pos hc]
  apply blanks_append hg
  rw [hd, List.cons_append, blanks_cons (isBlank_of_isFoldedNameStart hstart), ← List.cons_append, ← hd,
    hagain r' (by rwa [← hchanges.head?_eq]), Option.bind_some]
  exact hb'

theorem forLoop?_eq (t : Text) : forLoop? t = named (fun p => (dropAssignSign? (Text.trimStart p.2)).bind fun r =>
    (loopBounds? r).map fun y => (p.1, y)) t := by
  unfold forLoop? named
  congr 1
  funext u
  cases name? isFoldedNameStart u with
  | none => rfl
  | some p =>
    cases hsign : dropAssignSign? (Text.trimStart p.2) with
    | none => simp [hsign]
    | some r => cases hbounds : loopBounds? r <;> simp [hsign, hbounds]

/-- The sign of an assignment is followed by any text. -/
theorem dropAssignSign?_split (h : dropAssignSign? t = some r) : ∃ s, t = s ++ r ∧ (∀ d ∈ s, isQuote d = false) ∧
    ∀ r', dropAssignSign? (s ++ r') = some r' := by
  unfold dropAssignSign? at h
  split at h
  · cases h
    exact ⟨['='], rfl, by simp [isQuote], fun _ => rfl⟩
  · cases h
    exact ⟨['<', '-'], rfl, by simp [isQuote], fun _ => rfl⟩
  · cases h
    exact ⟨['←'], rfl, by simp [isQuote], fun _ => rfl⟩
  · cases h

/-- A loop with other contents for a literal in its bounds or its step. -/
theorem forLoop?_refill {name start stop : Text} {step : Option Text} (h : F.Changes t t') (hline : '\n' ∉ t)
    (hread : forLoop? t = some (name, start, stop, step)) (hstart : imbalance? start = none)
    (hstop : imbalance? stop = none) (hstep : imbalance? (step.getD []) = none)
    (hwhole : ∃ c ∈ start, Text.isBlank c = false) :
    ∃ start' stop' step', forLoop? t' = some (name, start', stop', step') ∧
      Refilled F (forLoop name start stop step)
        (ifBalanced .forLoop [start', stop', step'.getD []] (forLoop name start' stop' step')) := by
  rw [forLoop?_eq] at hread
  obtain ⟨n, r, r', hchanges, hsuffix, hnext, hagain⟩ := named_refill h hread
  obtain ⟨x, hsign, hrest⟩ := Option.bind_eq_some_iff.1 hnext
  obtain ⟨_, hbounds, heq⟩ := Option.map_eq_some_iff.1 hrest
  obtain ⟨rfl, rfl⟩ := Prod.mk.inj heq
  obtain ⟨s, hs, hunquoted, hagain'⟩ := dropAssignSign?_split hsign
  -- up to the sign the line is the same
  have htrim := hchanges.trimStart
  rw [hs] at htrim
  obtain ⟨x', hs', hx⟩ := htrim.behind hunquoted
  have hline' : '\n' ∉ x := fun hmem => hline (hsuffix.subset ((Text.trimStart_suffix r).subset (hs ▸ by simp [hmem])))
  obtain ⟨start', stop', step', hbounds', hrefilled⟩ := loopBounds?_refill n hx hline' hbounds hstart hstop hstep hwhole
  refine ⟨start', stop', step', ?_, hrefilled⟩
  rw [forLoop?_eq]
  apply hagain
  simp only [hs', hagain', Option.bind_some, hbounds', Option.map_some]

/-! ## The value and the target of `set` -/

/-- In front of a literal a name is the same, whatever the literal holds. -/
theorem name?_at {starts : Char → Bool} (hstarts : ∀ c, starts c = true → IsNeutral c) (h : F.At u t t') {n : Text}
    (hread : name? starts t = some (n, r)) :
    ∃ u' r', t' = n ++ r' ∧ F.At u' r r' ∧ name? starts t' = some (n, r') := by
  obtain ⟨rfl, hn, -, hhead, hagain⟩ := name?_split hstarts hread
  obtain ⟨u', r', -, rfl, hat⟩ := h.append_inv fun c hc => (hn c hc).1
  exact ⟨u', r', rfl, hat, hagain r' (by rwa [← hat.head?_eq])⟩

theorem dropStart?_at (hc : isQuote c = false) (h : F.At u t t') (hread : Text.dropStart? [c] t = some r) :
    ∃ u' r', u = c :: u' ∧ F.At u' r r' ∧ Text.dropStart? [c] t' = some r' := by
  obtain rfl := Text.dropStart?_eq_some hread
  obtain ⟨u', r', rfl, rfl, hat⟩ := h.cons_inv hc
  exact ⟨u', r', rfl, hat, Text.dropStart?_append [c] r'⟩

theorem dropEnd?_at (hc : isQuote c = false) (h : F.At u t t') (hread : Text.dropEnd? [c] t = some r) :
    ∃ r', F.At u r r' ∧ Text.dropEnd? [c] t' = some r' := by
  obtain rfl := Text.dropEnd?_eq_some hread
  obtain ⟨r', rfl, hat⟩ := h.concat_inv hc
  exact ⟨r', hat, Text.dropEnd?_append [c] r'⟩

theorem isSome_place?_of_at (h : F.At u t t') (hline : '\n' ∉ t) (hread : (place? t).isSome = true) :
    (place? t').isSome = true := by
  cases hname : name? isFoldedNameStart t with
  | none => simp [place?, hname] at hread
  | some y =>
    obtain ⟨n, r⟩ := y
    obtain ⟨u', r', ht', hat, hname'⟩ := name?_at isNeutral_of_isFoldedNameStart h hname
    obtain ⟨c, r, rfl⟩ := List.exists_cons_of_ne_nil (List.ne_nil_of_mem hat.mem.1)
    obtain ⟨c', r', rfl⟩ := List.exists_cons_of_ne_nil (List.ne_nil_of_mem hat.mem.2)
    simp only [place?, hname] at hread
    -- a place that holds the literal has it in its index, which does not get empty
    split at hread
    · next index hindex =>
      obtain ⟨r₁, hstart, hend⟩ := Option.bind_eq_some_iff.1 hindex
      obtain ⟨_, r₁', -, hat₁, hstart'⟩ := dropStart?_at (by rfl) hat hstart
      obtain ⟨index', hat₂, hend'⟩ := dropEnd?_at (by rfl) hat₁ hend
      have hline' : '\n' ∉ index' := fun hmem => by
        refine h.inLine hline ?_
        rw [ht', Text.dropStart?_eq_some hstart', Text.dropEnd?_eq_some hend']
        simp [hmem]
      simp only [place?, hname', hstart', Option.bind_some, hend']
      rw [if_neg (by simp [List.ne_nil_of_mem hat₂.mem.2, hline'])]
      rfl
    · cases hread

theorem ignored_place? : F.Ignored place? := by
  intro u t t' hat hline
  rw [Bool.eq_iff_iff]
  exact ⟨isSome_place?_of_at hat hline, isSome_place?_of_at hat.swap (hat.inLine hline)⟩

theorem follows_place? : F.Follows place? (separator (text "to") place?) :=
  ignored_place?.separator (forall_isNeutral (by decide))

/-- What follows the name of a place is an index. -/
theorem exists_index_of_place? {n : Text} (h : (place? t).isSome = true)
    (hname : name? isFoldedNameStart t = some (n, c :: r)) : c = '[' := by
  cases hstart : Text.dropStart? ['['] (c :: r) with
  | none => simp [place?, hname, hstart] at h
  | some i => exact (List.cons.inj (Text.dropStart?_eq_some hstart)).1

/-- A place that ends behind a quote has an index that begins in front of it. -/
theorem isSome_index_of_place? {q : Char} (hq : isQuote q = true) (h : (place? (w ++ q :: z)).isSome = true) :
    ((name? isFoldedNameStart w).bind fun (_, r) => Text.dropStart? ['['] r).isSome = true := by
  cases hname : name? isFoldedNameStart (w ++ q :: z) with
  | none => simp [place?, hname] at h
  | some y =>
    obtain ⟨n, r⟩ := y
    obtain ⟨hcut, hn, -, hhead, hagain⟩ := name?_split isNeutral_of_isFoldedNameStart hname
    obtain ⟨w', rfl, rfl⟩ := exists_of_unquoted hcut (fun c hc => (hn c hc).1) hq
    cases w' with
    | nil =>
      obtain rfl := exists_index_of_place? h hname
      cases hq
    | cons d w' =>
      obtain rfl := exists_index_of_place? h hname
      rw [hagain ('[' :: w') (by simpa using hhead), Option.bind_some]
      exact congrArg Option.isSome (Text.dropStart?_append ['['] w')

/-- The literal in the value that is set, or in the target. -/
theorem set?_refill {value target : Text} (h : F.Changes t t') (hline : '\n' ∉ t)
    (hread : set? t = some (value, target)) (hvalue : imbalance? value = none) (htarget : imbalance? target = none)
    (hwhole : ∃ c ∈ value, Text.isBlank c = false) :
    ∃ value' target', set? t' = some (value', target') ∧
      Refilled F (set value target) (ifBalanced .set [value', target'] (set value' target')) := by
  obtain ⟨c, r, rfl, hc, hread⟩ := someBlanks_uncons hread
  obtain ⟨r', rfl, hr⟩ := Refill.Changes.behind (k := [c]) h (by simpa using isQuote_of_isBlank hc)
  have hset {r : Text} : set? (c :: r) = blanks (passage (separator (text "to") place?)) r := by
    rw [set?, someBlanks, if_pos hc]
  have hline' : '\n' ∉ r := fun hmem => hline (List.mem_cons_of_mem c hmem)
  rw [List.singleton_append, hset]
  -- the literal stands in the value, or the value now ends within it, or it stands behind the value
  cases passes_blanks hr follows_place?.ignored hline' hread (isOutside_of_balanced hvalue) hwhole with
  | within hu hat hsame =>
    refine ⟨_, target, hsame, ?_⟩
    rw [ifBalanced_of_balanced]
    · exact (Rewords.given (hat.changes hu)).refilled
    · simp [htarget, (hat.changes hu).imbalance?_eq, hvalue]
  | cut hu hat hw hend hcut =>
    obtain ⟨_, hplace, hendsAt⟩ := separator_inside (forall_isNeutral (by decide)) F.opens hend
    have hindex := isSome_index_of_place? F.opens (by rw [hplace]; rfl)
    exact ⟨_, _, hcut, (Rewords.given (hat.changes hu)).refilled_inside hu hw
      (Place.isCutBy_of_endsAt (hendsAt hindex)) (by simp)⟩
  | behind hchanges hr hend hbehind =>
    obtain ⟨k, q, q', target', rfl, rfl, -, hlast, hq, hq', hread'⟩ :=
      follows_place?.changes hchanges (fun hmem => hline' (hr.subset hmem)) hend
    obtain rfl := place?_eq_some hq
    obtain rfl := place?_eq_some hq'
    refine ⟨value, target', hbehind _ hread', ?_⟩
    rw [ifBalanced_of_balanced]
    · exact (Rewords.receiver hlast).refilled
    · simp [hvalue, hlast.imbalance?_eq, htarget]

end Statement

end Pseudocode
