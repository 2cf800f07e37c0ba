import Pseudocode.Proofs.Indentation

/-!
# What a scan finds line by line

Validation reads the lines once and goes on after every error. A line adds at most one finding about what its
statement does to the open blocks or about its shape, whatever is wrong with the lines before it; all other
findings are about neither.

* `Validation.isWorded_opening`    the topic of a finding can be told from its message
* `Validation.Moves`               what a statement does to the open blocks, and what is found about that
* `Validation.State.Remarks`       a check that leaves the blocks alone and finds something else
* `Validation.State.takes_step`    everything that a statement does, one case for each kind
* `Validation.State.visit_cases`   everything that one line does
-/

namespace Pseudocode

/-- The block that a statement opens. -/
def Statement.opened? : Statement → Option BlockKind
  | forLoop _ _ _ _ => some .forLoop
  | whileLoop _ => some .whileLoop
  | branch _ => some .branch
  | function _ _ => some .function
  | _ => none

/-- The block that a statement is the end of. -/
def Statement.closed? : Statement → Option BlockKind
  | ending kind => some kind
  | _ => none

/-- The line has not the shape of a statement. -/
def Statement.isShapeless : Statement → Bool
  | malformed _ _ | raw _ => true
  | _ => false

theorem Statement.closed?_of_opened? {s : Statement} {kind : BlockKind} (h : s.opened? = some kind) :
    s.closed? = none := by
  cases s <;> first | rfl | cases h

theorem Statement.isShapeless_of_opened? {s : Statement} {kind : BlockKind} (h : s.opened? = some kind) :
    s.isShapeless = false := by
  cases s <;> first | rfl | cases h

namespace Validation

/-! ## Kinds of findings -/

/-- What a finding is about, as far as open blocks and the shapes of lines are concerned. -/
inductive Topic where
  | unclosed
  | mismatchedEnd
  | unexpectedEnd
  | malformed
  | unrecognized
  deriving DecidableEq, Repr

/-- How the messages about a topic begin. -/
def Topic.opening : Topic → Text
  | unclosed => text "Unclosed "
  | mismatchedEnd => text "Expected end"
  | unexpectedEnd => text "Unexpected end"
  | malformed => text "Malformed "
  | unrecognized => text "Unrecognized statement"

/-- The topic of a cause, if it has one. -/
def topic? : Finding.Cause → Option Topic
  | .unclosed _ => some .unclosed
  | .mismatchedEnd _ _ => some .mismatchedEnd
  | .unexpectedEnd _ => some .unexpectedEnd
  | .malformed _ _ => some .malformed
  | .unrecognized => some .unrecognized
  | _ => none

/-- The message of a finding begins with the given words. -/
def isWorded (start : Text) (f : Finding) : Bool := Text.startsWith start f.cause.message

/-- The messages about a topic begin with other letters than those about none. -/
theorem head?_opening (topic : Topic) : topic.opening.head? ∈ [some 'U', some 'E', some 'M'] := by
  cases topic <;> decide

theorem head?_message {c : Finding.Cause} (h : topic? c = none) :
    c.message.head? ∉ [some 'U', some 'E', some 'M'] := by
  have hof {a : Char} (hhead : c.message.head? = some a) (ha : a ∉ ['U', 'E', 'M']) :
      c.message.head? ∉ [some 'U', some 'E', some 'M'] := by
    simpa [hhead] using ha
  cases c with
  | unclosed | mismatchedEnd | unexpectedEnd | malformed | unrecognized => cases h
  | outsideLoop control => cases control <;> exact hof rfl (by decide)
  | _ => exact hof rfl (by decide)

/-- The topic of a finding can be told from its message. -/
theorem isWorded_opening (topic : Topic) (f : Finding) :
    isWorded topic.opening f = (topic? f.cause == some topic) := by
  obtain ⟨line, text, cause⟩ := f
  cases htopic : topic? cause with
  | none =>
    -- messages about no topic begin with another character
    have hnot : ¬ isWorded topic.opening ⟨line, text, cause⟩ = true := by
      intro hworded
      obtain ⟨r, hr⟩ := Option.isSome_iff_exists.1 hworded
      have hmessage : cause.message = topic.opening ++ r := Text.dropStart?_eq_some hr
      have hhead := head?_opening topic
      refine head?_message htopic ?_
      cases hopening : topic.opening with
      | nil => simp [hopening] at hhead
      | cons c u =>
        rw [hopening] at hhead hmessage
        rw [hmessage]
        exact hhead
    simpa using hnot
  | some other =>
    cases cause <;> cases htopic <;> cases topic <;> rfl

/-- The number of findings about a topic. -/
def count (topic : Topic) (findings : List Finding) : Nat :=
  findings.countP fun f => topic? f.cause == some topic

/-- The finding says that a line has not the shape of a statement. -/
def isAboutShape (f : Finding) : Bool :=
  topic? f.cause == some .malformed || topic? f.cause == some .unrecognized

/-! ## Lines and their blocks -/

/-- The statement of a line; a blank line or a comment has none. -/
def statement? (line : Line) : Option Statement :=
  if line.isTrivial then none else some (Statement.classify line.trimmed)

/-- The number of the line that opens or ends a block, and the kind of the block. -/
abbrev Place := Nat × BlockKind

/-- The blocks that the lines open, in the order of the lines. -/
def openings (lines : List Line) : List Place :=
  lines.filterMap fun line => (statement? line).bind fun s => s.opened?.map (line.number, ·)

/-- The blocks that the lines are the ends of. -/
def endings (lines : List Line) : List Place :=
  lines.filterMap fun line => (statement? line).bind fun s => s.closed?.map (line.number, ·)

/-- The lines that have not the shape of a statement. -/
def shapeless (lines : List Line) : List Line :=
  lines.filter fun line => (statement? line).any Statement.isShapeless

/-- The places of the open blocks, innermost first. -/
def State.places (s : State) : List Place := s.stack.map fun f => (f.line, f.kind)

/-- The lines are numbered from one. -/
def AreNumbered (lines : List Line) : Prop := ∀ i (h : i < lines.length), lines[i].number = i + 1

theorem areNumbered_lines (source : Text) : AreNumbered (Source.lines source) :=
  fun _ h => Source.number_lines h

/-- The finding is at a line of the program and has its text. A program without lines has an empty first
    line. -/
structure IsAnchored (lines : List Line) (f : Finding) : Prop where
  one_le : 1 ≤ f.line
  le : f.line ≤ max 1 lines.length
  text : f.text = textOf lines f.line

/-- A finding at a line. -/
def findingAt (line : Line) (cause : Finding.Cause) : Finding := ⟨line.number, line.raw, cause⟩

/-- What is found at a line, at most one thing. -/
def foundAt (line : Line) (cause? : Option Finding.Cause) : List Finding :=
  (cause?.map (findingAt line)).toList

variable {lines : List Line} {line : Line}

theorem isAnchored_findingAt (hnumbered : AreNumbered lines) (hline : line ∈ lines)
    (cause : Finding.Cause) : IsAnchored lines (findingAt line cause) := by
  obtain ⟨i, hi, rfl⟩ := List.getElem_of_mem hline
  have hnumber := hnumbered i hi
  refine ⟨by simp only [findingAt]; omega, by simp only [findingAt]; omega, ?_⟩
  simp [findingAt, hnumber, textOf, hi]

/-! ## One statement -/

/-- `Moves number before statement cause? after`: where the blocks `before` are open, the statement of the
    line with a number leaves the blocks `after` open, and `cause?` is found. -/
inductive Moves (number : Nat) :
    List Place → Statement → Option Finding.Cause → List Place → Prop where
  | opens {places : List Place} {s : Statement} {kind : BlockKind} (hopens : s.opened? = some kind) :
      Moves number places s none ((number, kind) :: places)
  | closes {opened : Nat} {kind : BlockKind} {places : List Place} :
      Moves number ((opened, kind) :: places) (.ending kind) none places
  /-- The end of another block than the innermost one closes none. -/
  | mismatched {opened : Nat} {top kind : BlockKind} {places : List Place} (hne : top ≠ kind) :
      Moves number ((opened, top) :: places) (.ending kind) (some (.mismatchedEnd top kind))
        ((opened, top) :: places)
  | unexpected {kind : BlockKind} : Moves number [] (.ending kind) (some (.unexpectedEnd kind)) []
  | malformed {places : List Place} {form : Form} {fault : Fault} :
      Moves number places (.malformed form fault) (some (.malformed form fault)) places
  | raw {places : List Place} {t : Text} : Moves number places (.raw t) (some .unrecognized) places
  | stays {places : List Place} {s : Statement} (hopens : s.opened? = none) (hcloses : s.closed? = none)
      (hshape : s.isShapeless = false) : Moves number places s none places

namespace State

/-- The later state has the same open blocks, and further findings about none of the topics. -/
structure Remarks (lines : List Line) (s s' : State) : Prop where
  places : s'.places = s.places
  findings : ∃ remarks, s'.findings = remarks ++ s.findings ∧
    ∀ f ∈ remarks, topic? f.cause = none ∧ IsAnchored lines f

/-- Other parts of the state may change freely. -/
theorem Remarks.of_eq {s s' : State} (hplaces : s'.places = s.places) (hfindings : s'.findings = s.findings) :
    Remarks lines s s' := ⟨hplaces, [], hfindings, by simp⟩

theorem Remarks.of_cons {s s' : State} {f : Finding} (hplaces : s'.places = s.places)
    (hfindings : s'.findings = f :: s.findings) (htopic : topic? f.cause = none)
    (hanchored : IsAnchored lines f) : Remarks lines s s' := by
  refine ⟨hplaces, [f], hfindings, fun g hg => ?_⟩
  obtain rfl := List.mem_singleton.1 hg
  exact ⟨htopic, hanchored⟩

theorem Remarks.trans {s s' s'' : State} (h : Remarks lines s s') (h' : Remarks lines s' s'') :
    Remarks lines s s'' := by
  obtain ⟨hplaces, remarks, hfindings, hremarks⟩ := h
  obtain ⟨hplaces', remarks', hfindings', hremarks'⟩ := h'
  refine ⟨hplaces'.trans hplaces, remarks' ++ remarks, ?_, List.forall_mem_append.2 ⟨hremarks', hremarks⟩⟩
  rw [hfindings', hfindings, List.append_assoc]

/-- `Takes lines line statement s s'`: a statement on a line of the program leads from `s` to `s'`. First
    something may be remarked about it, then it is looked at what it does to the open blocks. -/
def Takes (lines : List Line) (line : Line) (statement : Statement) (s s' : State) : Prop :=
  ∃ t cause?, Remarks lines s t ∧ s'.findings = foundAt line cause? ++ t.findings ∧
    Moves line.number t.places statement cause? s'.places

section Line

variable (hnumbered : AreNumbered lines) (hline : line ∈ lines)
include hnumbered hline

theorem remarks_report (s : State) {cause : Finding.Cause} (htopic : topic? cause = none) :
    Remarks lines s (s.report line cause) :=
  .of_cons (f := findingAt line cause) rfl rfl htopic (isAnchored_findingAt hnumbered hline cause)

theorem remarks_checkEnvelope (s : State) (statement : Statement) :
    Remarks lines s (s.checkEnvelope lines line statement) := by
  have hreport {t : State} {cause : Finding.Cause} (hplaces : t.places = s.places)
      (hfindings : t.findings = findingAt line cause :: s.findings) (htopic : topic? cause = none) :
      Remarks lines s t :=
    .of_cons hplaces hfindings htopic (isAnchored_findingAt hnumbered hline cause)
  have hfirst {t : State} (hplaces : t.places = s.places)
      (hfindings : t.findings = ⟨1, textOf lines 1, .missingHeader⟩ :: s.findings) :
      Remarks lines s t :=
    .of_cons hplaces hfindings rfl ⟨Nat.le_refl 1, Nat.le_max_left .., rfl⟩
  rw [checkEnvelope]
  -- behind the footer everything is a finding
  split
  · split
    · exact hreport rfl rfl rfl
    · exact hreport rfl rfl rfl
  · -- the header is looked at first; the footer is only written down
    have hfooter {t : State} (h : Remarks lines s t) :
        Remarks lines s (if statement = .footer then { t with footer := some line.number } else t) := by
      split
      · exact h.trans (.of_eq rfl rfl)
      · exact h
    refine hfooter ?_
    split
    · split
      · exact hreport rfl rfl rfl
      · split
        · exact .of_eq rfl rfl
        · exact hreport rfl rfl rfl
    · split
      · exact hfirst rfl rfl
      · exact .of_eq rfl rfl

theorem remarks_checkIndentation (s : State) (statement : Statement) :
    Remarks lines s (s.checkIndentation line statement) := by
  rw [checkIndentation]
  split
  · exact .of_eq rfl rfl
  · split
    · exact .of_eq rfl rfl
    · split
      · exact remarks_report hnumbered hline s rfl
      · exact .of_eq rfl rfl

theorem remarks_checkLoopControl (s : State) (control : LoopControl) :
    Remarks lines s (s.checkLoopControl line control) := by
  rw [checkLoopControl]
  split
  · split
    · exact .of_eq rfl rfl
    · exact remarks_report hnumbered hline s rfl
  · exact remarks_report hnumbered hline s rfl

/-- Everything that a statement does, whatever state it is read in. -/
theorem takes_step (s : State) (statement : Statement) : Takes lines line statement s (s.step line statement) := by
  have hreport {cause : Finding.Cause} (htopic : topic? cause = none) :
      Remarks lines s (s.report line cause) := remarks_report hnumbered hline s htopic
  have hstays (hopens : statement.opened? = none) (hcloses : statement.closed? = none)
      (hshape : statement.isShapeless = false) (h : Remarks lines s (s.step line statement)) :
      Takes lines line statement s (s.step line statement) :=
    ⟨_, none, h, rfl, .stays hopens hcloses hshape⟩
  cases statement with
  | forLoop name start stop step =>
    -- the loop is opened also if its variable is in use
    refine ⟨_, none, ?_, rfl, .opens rfl⟩
    split
    · exact hreport rfl
    · exact .of_eq rfl rfl
  | whileLoop condition => exact ⟨s, none, .of_eq rfl rfl, rfl, .opens rfl⟩
  | branch condition => exact ⟨s, none, .of_eq rfl rfl, rfl, .opens rfl⟩
  | function name parameters => exact ⟨s, none, .of_eq rfl rfl, rfl, .opens rfl⟩
  | ending kind =>
    rw [step, leave]
    -- an end is compared with the innermost block only
    cases hstack : s.stack with
    | nil =>
      exact ⟨s, some (.unexpectedEnd kind), .of_eq rfl rfl, rfl, by
        simpa [places, hstack, report] using Moves.unexpected⟩
    | cons top below =>
      dsimp only
      by_cases hkind : top.kind = kind
      · subst hkind
        rw [if_pos rfl]
        exact ⟨s, none, .of_eq rfl rfl, rfl, by simpa [places, hstack] using Moves.closes⟩
      · rw [if_neg hkind]
        exact ⟨s, some (.mismatchedEnd top.kind kind), .of_eq rfl rfl, rfl, by
          simpa [places, hstack, report] using Moves.mismatched hkind⟩
  | malformed form fault => exact ⟨s, some (.malformed form fault), .of_eq rfl rfl, rfl, .malformed⟩
  | raw t => exact ⟨s, some .unrecognized, .of_eq rfl rfl, rfl, .raw⟩
  | elseIf condition =>
    refine hstays rfl rfl rfl ?_
    rw [step]
    split
    · split
      · split
        · exact hreport rfl
        · exact .of_eq rfl rfl
      · exact hreport rfl
    · exact hreport rfl
  | otherwise =>
    refine hstays rfl rfl rfl ?_
    rw [step]
    -- an `else` is noted in the frame of its block, whose place stays
    split
    · next hstack =>
      split
      · split
        · exact hreport rfl
        · exact .of_eq (by simp [places, hstack]) rfl
      · exact hreport rfl
    · exact hreport rfl
  | returning value =>
    refine hstays rfl rfl rfl ?_
    rw [step]
    split
    · exact .of_eq rfl rfl
    · exact hreport rfl
  | breaking => exact hstays rfl rfl rfl (remarks_checkLoopControl hnumbered hline s _)
  | continuing => exact hstays rfl rfl rfl (remarks_checkLoopControl hnumbered hline s _)
  | declaration kind name size init =>
    refine hstays rfl rfl rfl ?_
    rw [step]
    split
    · exact hreport rfl
    · exact .of_eq rfl rfl
  | _ => exact hstays rfl rfl rfl (.of_eq rfl rfl)

/-- Everything that one line does. A line without a statement does nothing. -/
theorem visit_cases (s : State) :
    (statement? line = none ∧ s.visit lines line = s) ∨
    ∃ statement, statement? line = some statement ∧ Takes lines line statement s (s.visit lines line) := by
  rw [visit, statement?]
  split
  · exact .inl ⟨rfl, rfl⟩
  · have hchecks := (remarks_checkEnvelope hnumbered hline s (Statement.classify line.trimmed)).trans
      (remarks_checkIndentation hnumbered hline _ (Statement.classify line.trimmed))
    obtain ⟨t, cause?, hremarks, hfindings, hmoves⟩ := takes_step hnumbered hline _ _
    exact .inr ⟨_, rfl, t, cause?, hchecks.trans hremarks, hfindings, hmoves⟩

end Line

end State

end Validation

end Pseudocode
