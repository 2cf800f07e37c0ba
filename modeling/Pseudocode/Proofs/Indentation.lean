import Pseudocode.Proofs.LineAlignment
import Pseudocode.Source.Validation

/-!
# Errors do not depend on indentation

How deep a line stands is kept in the frames of the open blocks and read for advice only. What is
left of a validation state when the depths and the advice are taken out changes with each line in a
way that depends on nothing but the number and the trimmed text of the line.

* `Finding.filter_mergeSort` says that advice does not change the order of the errors.
* `Validation.State.bare_visit` says what one line does to what is left of a state.
* `errors_validate_eq` is the result for programs: lines with the same trimmed texts have the same
  errors, in the same order.
-/

namespace Pseudocode

/-! ## Findings in the order of their lines -/

namespace Finding

/-- The order in which findings are reported. -/
def precedes (f g : Finding) : Bool := f.line ≤ g.line

theorem precedes_trans (f g h : Finding) : f.precedes g → g.precedes h → f.precedes h := by
  simp only [precedes, decide_eq_true_eq]
  omega

theorem precedes_total (f g : Finding) : (f.precedes g || g.precedes f) = true := by
  simp only [precedes, Bool.or_eq_true, decide_eq_true_eq]
  omega

/-- Puts a finding before the first one that it precedes. -/
def insertInto (f : Finding) : List Finding → List Finding
  | [] => [f]
  | g :: findings => if f.precedes g then f :: g :: findings else g :: f.insertInto findings

theorem insertInto_of_precedes {f : Finding} {findings : List Finding}
    (h : ∀ g ∈ findings, f.precedes g = true) : f.insertInto findings = f :: findings := by
  cases findings with
  | nil => rfl
  | cons g findings => simp [insertInto, h g (by simp)]

/-- Sorting takes the first finding to its place among the later ones. -/
theorem mergeSort_cons (f : Finding) (findings : List Finding) :
    (f :: findings).mergeSort precedes = f.insertInto (findings.mergeSort precedes) := by
  have hsorted := List.pairwise_mergeSort precedes_trans precedes_total (f :: findings)
  obtain ⟨before, behind, hcons, hrest, hbefore⟩ :=
    List.mergeSort_cons precedes_trans precedes_total f findings
  rw [hcons] at hsorted
  have hbehind : ∀ g ∈ behind, f.precedes g = true :=
    (List.pairwise_cons.1 (List.pairwise_append.1 hsorted).2.1).1
  rw [hcons, hrest]
  clear hcons hrest hsorted
  induction before with
  | nil => exact (insertInto_of_precedes hbehind).symm
  | cons g before ih =>
    have hnot : f.precedes g = false := by simpa using hbefore g (by simp)
    simp [insertInto, hnot, ih fun g hg => hbefore g (List.mem_cons_of_mem _ hg)]

/-- A finding that is left out leaves no trace among sorted ones, and any other one comes to stand
    where it would without those that are left out. -/
theorem filter_insertInto (p : Finding → Bool) (f : Finding) {findings : List Finding}
    (hsorted : findings.Pairwise fun a b => precedes a b = true) :
    (f.insertInto findings).filter p =
      if p f then f.insertInto (findings.filter p) else findings.filter p := by
  induction findings with
  | nil => simp [insertInto, List.filter_cons]
  | cons g findings ih =>
    obtain ⟨hg, hrest⟩ := List.pairwise_cons.1 hsorted
    by_cases hfg : f.precedes g = true
    -- the list is sorted, so what precedes its head precedes all of it
    · have hall : ∀ a ∈ g :: findings, f.precedes a = true := fun a ha => by
        rcases List.mem_cons.1 ha with rfl | ha
        · exact hfg
        · exact precedes_trans _ _ _ hfg (hg a ha)
      rw [insertInto_of_precedes hall, List.filter_cons,
        insertInto_of_precedes fun a ha => hall a ((List.mem_filter.1 ha).1)]
    · rw [insertInto, if_neg hfg, List.filter_cons, ih hrest, List.filter_cons]
      by_cases hp : p g = true
      · rw [if_pos hp, if_pos hp]
        split
        · rw [insertInto, if_neg hfg]
        · rfl
      · rw [if_neg hp, if_neg hp]

/-- Leaving findings out and sorting may change places. -/
theorem filter_mergeSort (p : Finding → Bool) (findings : List Finding) :
    (findings.mergeSort precedes).filter p = (findings.filter p).mergeSort precedes := by
  induction findings with
  | nil => simp
  | cons f findings ih =>
    have hsorted := List.pairwise_mergeSort precedes_trans precedes_total findings
    rw [mergeSort_cons, filter_insertInto p f hsorted, List.filter_cons, ih, ← mergeSort_cons]
    split <;> rfl

/-- The finding without the text of its line, which holds the white space around it. -/
def bare (f : Finding) : Finding := { f with text := [] }

end Finding

/-- The errors among findings, without the texts of their lines. -/
def errors (findings : List Finding) : List Finding :=
  (findings.filter Finding.isError).map Finding.bare

theorem errors_cons (line : Nat) (text : Text) (cause : Finding.Cause) (findings : List Finding) :
    errors (⟨line, text, cause⟩ :: findings) =
      if cause.isError then ⟨line, [], cause⟩ :: errors findings else errors findings := by
  cases h : cause.isError <;> simp [errors, Finding.isError, Finding.bare, h]

/-! ## What is left of a state -/

/-- Nothing but the number of a line. -/
def Line.bare (line : Line) : Line := ⟨line.number, []⟩

namespace Validation

/-- The frame without how deep its line stands. -/
def Frame.bare (f : Frame) : Frame := { f with indent := 0 }

@[simp] theorem Frame.kind_bare (f : Frame) : f.bare.kind = f.kind := rfl

@[simp] theorem Frame.hasElse_bare (f : Frame) : f.bare.hasElse = f.hasElse := rfl

/-- The state without depths, without advice and without the texts of lines. -/
def State.bare (s : State) : State :=
  { s with
    stack := s.stack.map Frame.bare
    findings := errors s.findings }

variable (s : State) (line : Line)

theorem textOf_bare (lines : List Line) (number : Nat) :
    textOf (lines.map Line.bare) number = [] := by
  cases number with
  | zero => rfl
  | succ i => cases h : lines[i]? <;> simp [textOf, Line.bare, h]

theorem State.bare_report {cause : Finding.Cause} (h : cause.isError = true) :
    (s.report line cause).bare = s.bare.report line.bare cause := by
  simp [report, bare, errors_cons, Line.bare, h]

theorem State.bare_reportAt (lines : List Line) (number : Nat) {cause : Finding.Cause}
    (h : cause.isError = true) :
    (s.reportAt lines number cause).bare = s.bare.reportAt (lines.map Line.bare) number cause := by
  simp [reportAt, bare, errors_cons, textOf_bare, h]

theorem State.bare_checkEnvelope (lines : List Line) (statement : Statement) :
    (s.checkEnvelope lines line statement).bare =
      s.bare.checkEnvelope (lines.map Line.bare) line.bare statement := by
  obtain ⟨stack, findings, started, header, footer⟩ := s
  have hfooter : isHeader .footer = false := rfl
  by_cases hstatement : statement = .footer
  · subst hstatement
    cases footer <;> cases started <;>
      simp [checkEnvelope, hfooter, report, reportAt, bare, errors_cons, Finding.Cause.isError,
        Line.bare, textOf_bare]
  · cases hheader : isHeader statement <;> cases footer <;> cases header <;> cases started <;>
      simp [checkEnvelope, hstatement, hheader, report, reportAt, bare, errors_cons,
        Finding.Cause.isError, Line.bare, textOf_bare]

/-- Advice about the depth of a line leaves no trace. -/
theorem State.bare_checkIndentation (statement : Statement) :
    (s.checkIndentation line statement).bare = s.bare := by
  rw [checkIndentation]
  split
  · rfl
  · split
    · rfl
    · split
      · simp [report, bare, errors_cons, Finding.Cause.isError]
      · rfl

theorem State.stack_bare : s.bare.stack = s.stack.map Frame.bare := rfl

theorem State.bare_checkLoopControl (control : LoopControl) :
    (s.checkLoopControl line control).bare = s.bare.checkLoopControl line.bare control := by
  have hfind : (s.bare.stack.find? fun f => f.kind.isLoop || f.kind = .function) =
      (s.stack.find? fun f => f.kind.isLoop || f.kind = .function).map Frame.bare := by
    rw [stack_bare, List.find?_map]
    rfl
  rw [checkLoopControl, checkLoopControl, hfind]
  cases s.stack.find? fun f => f.kind.isLoop || f.kind = .function with
  | none => exact s.bare_report line rfl
  | some frame =>
    simp only [Option.map_some, show frame.bare.kind = frame.kind from rfl]
    split
    · rfl
    · exact s.bare_report line rfl

theorem State.bare_enter (kind : BlockKind) (loopVariable : Option Text) :
    (s.enter line kind loopVariable).bare = s.bare.enter line.bare kind loopVariable := rfl

theorem State.bare_leave (kind : BlockKind) :
    (s.leave line kind).bare = s.bare.leave line.bare kind := by
  cases h : s.stack with
  | nil =>
    rw [leave, leave, stack_bare, h]
    exact s.bare_report line rfl
  | cons top below =>
    rw [leave, leave, stack_bare, h, List.map_cons]
    dsimp only
    rw [top.kind_bare]
    split
    · rfl
    · exact s.bare_report line rfl

theorem State.bare_step (statement : Statement) :
    (s.step line statement).bare = s.bare.step line.bare statement := by
  -- both stacks have blocks of the same kinds, so the same branch is taken
  cases statement with
  | forLoop name lo hi stride =>
    have hfind : (s.bare.stack.reverse.find? fun f => f.loopVariable = some name) =
        (s.stack.reverse.find? fun f => f.loopVariable = some name).map Frame.bare := by
      rw [stack_bare, ← List.map_reverse, List.find?_map]
      rfl
    rw [step, step, hfind]
    cases s.stack.reverse.find? fun f => f.loopVariable = some name with
    | none => rfl
    | some outer =>
      dsimp only [Option.map_some]
      rw [bare_enter, bare_report _ _ rfl]
      rfl
  | elseIf condition =>
    rw [step, step, stack_bare]
    cases s.stack with
    | nil => exact s.bare_report line rfl
    | cons top below =>
      rw [List.map_cons]
      dsimp only
      rw [top.kind_bare, top.hasElse_bare]
      split
      · split
        · exact s.bare_report line rfl
        · rfl
      · exact s.bare_report line rfl
  | otherwise =>
    rw [step, step, stack_bare]
    cases s.stack with
    | nil => exact s.bare_report line rfl
    | cons top below =>
      rw [List.map_cons]
      dsimp only
      rw [top.kind_bare, top.hasElse_bare]
      split
      · split
        · exact s.bare_report line rfl
        · rfl
      · exact s.bare_report line rfl
  | returning value =>
    have hany : (s.bare.stack.any fun f => f.kind = .function) =
        s.stack.any fun f => f.kind = .function := by
      rw [stack_bare, List.any_map]
      rfl
    rw [step, step, hany]
    split
    · rfl
    · exact s.bare_report line rfl
  | breaking => exact s.bare_checkLoopControl line .breaking
  | continuing => exact s.bare_checkLoopControl line .continuing
  | ending kind => exact s.bare_leave line kind
  | declaration kind name type init =>
    rw [step, step]
    split
    · exact s.bare_report line rfl
    · rfl
  | malformed form fault => exact s.bare_report line rfl
  | raw _ => exact s.bare_report line rfl
  | _ => rfl

/-- One line: what is left of the state afterwards depends on what is left of the state before, and
    on the number and the trimmed text of the line. -/
theorem State.bare_visit (lines : List Line) :
    (State.visit lines s line).bare =
      if line.isTrivial then s.bare
      else (s.bare.checkEnvelope (lines.map Line.bare) line.bare
        (Statement.classify line.trimmed)).step line.bare (Statement.classify line.trimmed) := by
  rw [visit]
  split
  · rfl
  · rw [bare_step, bare_checkIndentation, bare_checkEnvelope]

/-- The end of the program looks at the number of the lines and at no depth. -/
theorem State.bare_finish (lines : List Line) :
    (s.finish lines).bare = s.bare.finish (lines.map Line.bare) := by
  -- header, open blocks and footer are looked at one after the other
  have hstarted (s : State) :
      (if s.started then s else s.reportAt lines 1 .missingHeader).bare =
        if s.bare.started then s.bare
        else s.bare.reportAt (lines.map Line.bare) 1 .missingHeader := by
    split
    · next h => rw [if_pos (show s.bare.started = true from h)]
    · next h => rw [if_neg (show ¬ s.bare.started = true from h), bare_reportAt _ _ _ rfl]
  have hopen (s : State) (frames : List Frame) :
      (frames.foldr (fun f s => s.reportAt lines f.line (.unclosed f.kind)) s).bare =
        (frames.map Frame.bare).foldr
          (fun f s => s.reportAt (lines.map Line.bare) f.line (.unclosed f.kind)) s.bare := by
    induction frames with
    | nil => rfl
    | cons f frames ih =>
      rw [List.foldr_cons, bare_reportAt _ _ _ rfl, ih]
      rfl
  have hfooter (s : State) :
      (if s.footer.isNone then s.reportAt lines (max lines.length 1) .missingFooter else s).bare =
        if s.bare.footer.isNone then
          s.bare.reportAt (lines.map Line.bare) (max (lines.map Line.bare).length 1) .missingFooter
        else s.bare := by
    rw [List.length_map]
    split
    · next h => rw [if_pos (show s.bare.footer.isNone = true from h), bare_reportAt _ _ _ rfl]
    · next h => rw [if_neg (show ¬ s.bare.footer.isNone = true from h)]
  rw [finish, finish, hfooter, hopen, ← stack_bare, hstarted]

end Validation

/-! ## Programs -/

/-- What the errors of a line can depend on. -/
def Line.essence (line : Line) : Nat × Text := (line.number, line.trimmed)

theorem Line.isTrivial_congr {line line' : Line} (h : line.trimmed = line'.trimmed) :
    line.isTrivial = line'.isTrivial := by
  rw [isTrivial, isTrivial, h]

theorem Line.map_bare_congr {lines lines' : List Line}
    (h : lines.map essence = lines'.map essence) : lines.map bare = lines'.map bare := by
  have hbare : bare = (fun e : Nat × Text => ⟨e.1, []⟩) ∘ essence := rfl
  rw [hbare, ← List.map_map, h, List.map_map]

namespace Validation

/-- The whole program: lines of the same essence leave the same of a state. -/
theorem State.bare_foldl_visit {lines lines' : List Line}
    (hlines : lines.map Line.bare = lines'.map Line.bare) {read read' : List Line}
    (hread : read.map Line.essence = read'.map Line.essence) {s s' : State}
    (hs : s.bare = s'.bare) :
    (read.foldl (State.visit lines) s).bare = (read'.foldl (State.visit lines') s').bare := by
  induction read generalizing read' s s' with
  | nil =>
    obtain rfl := List.map_eq_nil_iff.1 hread.symm
    exact hs
  | cons line read ih =>
    obtain ⟨line', read', rfl, hline, hread'⟩ := List.map_eq_cons_iff.1 hread.symm
    obtain ⟨hnumber, htrimmed⟩ := Prod.mk.inj hline
    have hbare : line.bare = line'.bare := by rw [Line.bare, Line.bare, hnumber]
    refine ih hread'.symm ?_
    rw [bare_visit, bare_visit, hs, hlines, hbare, htrimmed, Line.isTrivial_congr htrimmed]

/-- Lines of the same essence have the same errors. -/
theorem errors_findings {lines lines' : List Line}
    (h : lines.map Line.essence = lines'.map Line.essence) :
    errors (findings lines) = errors (findings lines') := by
  have hmap (found : List Finding) : (found.mergeSort Finding.precedes).map Finding.bare =
      (found.map Finding.bare).mergeSort Finding.precedes :=
    List.map_mergeSort fun _ _ _ _ => rfl
  have herrors (lines : List Line) : errors (findings lines) =
      (((lines.foldl (State.visit lines) State.initial).finish
        lines).bare.findings.reverse).mergeSort Finding.precedes := by
    rw [findings, show (fun a b : Finding => decide (a.line ≤ b.line)) = Finding.precedes from rfl,
      errors, Finding.filter_mergeSort, List.filter_reverse, hmap, List.map_reverse]
    rfl
  have hbare := Line.map_bare_congr h
  rw [herrors, herrors, State.bare_finish, State.bare_finish, State.bare_foldl_visit hbare h rfl,
    hbare]

end Validation

/-- Sources that differ in the white space around their lines have lines of the same essence. -/
theorem Source.map_essence_lines {source source' : Text}
    (h : (Source.lines source).map Line.trimmed = (Source.lines source').map Line.trimmed) :
    (Source.lines source).map Line.essence = (Source.lines source').map Line.essence := by
  have hlength : (Source.lines source).length = (Source.lines source').length := by
    simpa using congrArg List.length h
  refine List.ext_getElem (by simpa using hlength) fun i hi hi' => ?_
  rw [List.length_map] at hi hi'
  have htrimmed : (Source.lines source)[i].trimmed = (Source.lines source')[i].trimmed := by
    have := List.getElem_of_eq h (by rwa [List.length_map])
    rwa [List.getElem_map, List.getElem_map] at this
  rw [List.getElem_map, List.getElem_map, Line.essence, Line.essence, htrimmed,
    Source.number_lines, Source.number_lines]

/-- The errors of a program, by the numbers of their lines and their messages, are those of any
    other program whose lines have the same trimmed texts. What white space stands around the lines
    decides about advice only, and advice neither hides an error nor puts it in another place. -/
theorem errors_validate_eq {source source' : Text}
    (h : (Source.lines source).map Line.trimmed = (Source.lines source').map Line.trimmed) :
    ((validate source).filter Finding.isError).map (fun f => (f.line, f.cause.message)) =
      ((validate source').filter Finding.isError).map fun f => (f.line, f.cause.message) := by
  have hplaces (findings : List Finding) :
      (findings.filter Finding.isError).map (fun f => (f.line, f.cause.message)) =
        (errors findings).map fun f => (f.line, f.cause.message) := by
    rw [errors, List.map_map]
    rfl
  rw [hplaces, hplaces, validate, validate,
    Validation.errors_findings (Source.map_essence_lines h)]

/-- A block that is closed by the ending of another one, with its lines indented and without: the
    second text is given advice that the first one is not given. -/
theorem errors_validate_eq_unindented :
    (Source.lines (text "Algorithm A\nfor i = 1 to 3\n    print i\n\tendwhile\nEndAlgorithm")).map
        Line.trimmed =
      (Source.lines (text "Algorithm A\n  for i = 1 to 3\nprint i\nendwhile\nEndAlgorithm")).map
        Line.trimmed ∧
    ((validate (text "Algorithm A\nfor i = 1 to 3\n    print i\n\tendwhile\nEndAlgorithm")).filter
        Finding.isError).map (fun f => (f.line, f.cause.message)) =
      ((validate (text "Algorithm A\n  for i = 1 to 3\nprint i\nendwhile\nEndAlgorithm")).filter
        Finding.isError).map (fun f => (f.line, f.cause.message)) :=
  ⟨by decide, errors_validate_eq (by decide)⟩

end Pseudocode
