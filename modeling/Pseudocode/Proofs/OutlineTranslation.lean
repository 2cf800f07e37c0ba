import Pseudocode.Proofs.LineAlignment
import Pseudocode.Proofs.OutlineReading
import Pseudocode.Proofs.ValidationGrammar
import Pseudocode.Proofs.Wrapper
import Pseudocode.Report.Location

/-!
# The translation of an outline

The source of an outline is read line by line: every line is the statement that it is written for,
so the source has no errors if its statements may stand where they stand, and the translation is the
layout of the same lines in script, at the same indentation. What is run is therefore read as one
function over the commands of the outline.

These are the commands that the outline says unless a step is misread.
-/

namespace Pseudocode

open Script Reader Grammar Validation

namespace Outline

/-! ## Lines of the source -/

theorem Name.newline_not_mem (n : Name) : '\n' ∉ n.chars :=
  (Operand.bound (.name n)).newline_not_mem

theorem Bound.newline_not_mem (b : Bound) : '\n' ∉ b.source := (Operand.bound b).newline_not_mem

theorem Entry.newline_not_mem (e : Entry) : '\n' ∉ e.source := by
  cases e with
  | header => decide
  | footer => decide
  | otherwise => decide
  | ending kind => cases kind <;> decide
  | whileLoop c => simp [source, text, c.newline_not_mem]
  | branch c => simp [source, text, c.newline_not_mem]
  | elseIf c => simp [source, text, c.newline_not_mem]
  | forLoop c =>
    have hname := c.name.newline_not_mem
    have hstart := c.start.newline_not_mem
    have hstop := c.stop.newline_not_mem
    cases hstep : c.step with
    | none => simp [source, Counter.source, text, hname, hstart, hstop, hstep]
    | some step =>
      simp [source, Counter.source, text, hname, hstart, hstop, hstep, step.newline_not_mem]
  | function name parameters =>
    have hword : '\n' ∉ text "function " := by decide
    have hlist := newline_not_mem_list (parameters.map fun n => .bound (.name n))
    rw [← join_names] at hlist
    simp [source, hword, name.newline_not_mem, hlist]
  | simple s =>
    cases s with
    | print operands =>
      cases operands with
      | nil => decide
      | cons o operands => simp [source, Simple.source, text, newline_not_mem_list]
    | assign target value =>
      simp [source, Simple.source, text, target.newline_not_mem, value.newline_not_mem]
    | call callee operands =>
      simp [source, Simple.source, callee.newline_not_mem, newline_not_mem_list]
    | returning value =>
      cases value with
      | none => decide
      | some value => simp [source, Simple.source, text, value.newline_not_mem]
    | breaking => decide
    | continuing => decide

/-- An indented line of source. -/
def sourceLine (line : Nat × Entry) : Text := List.replicate line.1 ' ' ++ line.2.source

theorem trim_sourceLine (line : Nat × Entry) : Text.trim (sourceLine line) = line.2.source := by
  refine Text.trim_blanks_append _ (fun c hc => ?_) line.2.isTrimmed
  rw [List.eq_of_mem_replicate hc]
  rfl

theorem leadingBlanks_sourceLine (line : Nat × Entry) :
    Text.leadingBlanks (sourceLine line) = List.replicate line.1 ' ' := by
  refine Text.takeWhile_append_of_ends (fun d hd => ?_) line.2.isTrimmed.start
  rw [List.eq_of_mem_replicate hd]
  rfl

theorem newline_not_mem_sourceLine (line : Nat × Entry) : '\n' ∉ sourceLine line := by
  intro h
  rcases List.mem_append.1 h with h | h
  · exact absurd (List.eq_of_mem_replicate h) (by decide)
  · exact line.2.newline_not_mem h

/-- Every line ends in a character that shows. -/
theorem exists_concat_sourceLine (line : Nat × Entry) :
    ∃ t c, sourceLine line = t ++ [c] ∧ Text.isBlank c = false := by
  obtain ⟨r, c, hconcat, hc⟩ := line.2.isTrimmed.exists_concat
  exact ⟨List.replicate line.1 ' ' ++ r, c, by rw [sourceLine, hconcat, List.append_assoc], hc⟩

/-- The lines of a text that is made of lines. -/
theorem map_raw_lines {lines : List (Nat × Entry)} (hne : lines ≠ []) :
    (Source.lines (Text.join ['\n'] (lines.map sourceLine))).map Line.raw
      = lines.map sourceLine :=
  Source.map_raw_lines_join (by simpa using hne)
    (List.forall_mem_map.2 fun line _ => newline_not_mem_sourceLine line)
    (List.forall_mem_map.2 fun line _ => exists_concat_sourceLine line)

/-! ## Validation -/

/-- What the lines say depends on their texts alone. -/
theorem statements_eq (lines : List Line) :
    statements lines = ((lines.map Line.raw).filter fun t => !(Line.mk 0 t).isTrivial).map
      fun t => Statement.classify (Text.trim t) := by
  rw [List.filter_map, List.map_map]
  rfl

/-- The source of an outline says the statements of its lines. -/
theorem statements_source {lines : List (Nat × Entry)} (hne : lines ≠ []) :
    statements (Source.lines (Text.join ['\n'] (lines.map sourceLine)))
      = (lines.map Prod.snd).map Entry.statement := by
  -- no line is blank or a comment, so none is left out
  have hall : (lines.map sourceLine).filter (fun t => !(Line.mk 0 t).isTrivial)
      = lines.map sourceLine := by
    refine List.filter_eq_self.2 fun t ht => ?_
    obtain ⟨line, -, rfl⟩ := List.mem_map.1 ht
    have htrim : (Line.mk 0 (sourceLine line)).trimmed = line.2.source := trim_sourceLine line
    obtain ⟨c, r, hcons⟩ := List.exists_cons_of_ne_nil line.2.isTrimmed.ne_nil
    have hcomment : c ≠ '#' := by
      rintro rfl
      exact line.2.head?_ne (by rw [hcons]; rfl)
    simp [Line.isTrivial, htrim, hcons, hcomment]
  rw [statements_eq, map_raw_lines hne, hall, List.map_map, List.map_map]
  refine List.map_congr_left fun line _ => ?_
  show Statement.classify (Text.trim (sourceLine line)) = line.2.statement
  rw [trim_sourceLine, line.2.classify_source]

end Outline

mutual

/-- The grammar generates the statements of an outline that is placed. -/
theorem Outline.isBody : ∀ (o : Outline) {around : List Enclosing}, o.IsPlaced around →
    IsPart around .body (o.entries.map Outline.Entry.statement)
  | .nil, _, _ => .nil
  | .simple s others, around, h => by
    have hplaced : MayStand around s.statement := by
      cases s <;> exact h.1
    exact .simple hplaced (others.isBody h.2)
  | .whileLoop c body others, _, h => by
    rw [Outline.entries, List.map_cons, List.map_append, List.map_cons]
    exact .whileLoop (body.isBody h.1) (others.isBody h.2)
  | .forLoop c body others, _, h => by
    rw [Outline.entries, List.map_cons, List.map_append, List.map_cons]
    exact .forLoop h.1 (body.isBody h.2.1) (others.isBody h.2.2)
  | .function name parameters body others, _, h => by
    rw [Outline.entries, List.map_cons, List.map_append, List.map_cons]
    exact .function (body.isBody h.1) (others.isBody h.2)
  | .branch c yes no others, _, h => by
    rw [Outline.entries, List.map_cons, List.map_append, List.map_append]
    exact .branch (yes.isBody h.1) (no.isAlternatives h.2.1) (others.isBody h.2.2)

/-- The grammar generates the statements of alternatives that are placed. -/
theorem Alternatives.isAlternatives : ∀ (a : Alternatives) {around : List Enclosing},
    a.IsPlaced around → IsPart around .alternatives (a.entries.map Outline.Entry.statement)
  | .none, _, _ => .ending
  | .otherwise body, _, h => by
    rw [Alternatives.entries, List.map_cons, List.map_append]
    exact .otherwise (body.isBody h)
  | .elseIf c yes no, _, h => by
    rw [Alternatives.entries, List.map_cons, List.map_append]
    exact .elseIf (yes.isBody h.1) (no.isAlternatives h.2)

end

namespace Outline

/-- The lines of an outline, with their indentation. -/
def lines (indent : Nat → Nat) (o : Outline) : List (Nat × Entry) :=
  o.listing.mapIdx fun i e => (indent i, e)

theorem map_snd_lines (indent : Nat → Nat) (o : Outline) :
    (o.lines indent).map Prod.snd = o.listing := by
  refine List.ext_getElem (by simp [lines]) fun i _ _ => ?_
  simp [lines]

theorem lines_ne_nil (indent : Nat → Nat) (o : Outline) : o.lines indent ≠ [] := by
  simp [lines, listing]

theorem source_eq (indent : Nat → Nat) (o : Outline) :
    o.source indent = Text.join ['\n'] ((o.lines indent).map sourceLine) := by
  rw [source, indented]
  congr 1
  refine List.ext_getElem (by simp [lines]) fun i _ _ => ?_
  simp [lines, sourceLine]

/-- The source of an outline that is placed has no errors. -/
theorem hasErrors_source (indent : Nat → Nat) {o : Outline} (h : o.IsPlaced []) :
    hasErrors (validate (o.source indent)) = false := by
  rw [validate, hasErrors_findings_eq_false_iff, source_eq, statements_source (o.lines_ne_nil indent),
    map_snd_lines]
  refine ⟨text "A", o.entries.map Entry.statement, ?_, o.isBody h⟩
  rw [listing, List.map_cons, List.map_append]
  rfl

/-! ## Translation -/

/-- An indented line of script. -/
def scriptLine (line : Nat × Entry) : Text := List.replicate line.1 ' ' ++ line.2.script

theorem Simple.script_ne_nil (s : Simple) : s.script ≠ [] := by
  cases s with
  | returning value => cases value <;> simp [script, text]
  | _ => simp [script, text]

theorem Entry.script_ne_nil (e : Entry) : e.script ≠ [] := by
  cases e with
  | simple s => exact s.script_ne_nil
  | _ => simp [script, Counter.script, text]

theorem emission_sourceLine (line : Nat × Entry) :
    Translation.emission (sourceLine line) = scriptLine line := by
  have hne : line.2.script.isEmpty = false := by simpa using line.2.script_ne_nil
  simp only [Translation.emission, trim_sourceLine, line.2.classify_source, line.2.statement_source,
    hne, leadingBlanks_sourceLine, Bool.false_eq_true, ↓reduceIte]
  rfl

/-- The script of an outline has the same lines. -/
theorem code_translate_source (indent : Nat → Nat) (o : Outline) :
    (translate (o.source indent)).code = Text.join ['\n'] ((o.lines indent).map scriptLine) := by
  rw [source_eq, Translation.code_translate_join (by simpa using o.lines_ne_nil indent)
    (List.forall_mem_map.2 fun line _ => newline_not_mem_sourceLine line)
    (List.forall_mem_map.2 fun line _ => exists_concat_sourceLine line), List.map_map]
  congr 1
  exact List.map_congr_left fun line _ => emission_sourceLine line

theorem layout_eq {lines : List (Nat × Entry)} (hne : lines ≠ []) (rest : Text) :
    layout lines rest = '\n' :: (Text.join ['\n'] (lines.map scriptLine) ++ rest) := by
  have hflat (lines : List (Nat × Entry)) :
      layout lines rest = (lines.map scriptLine).flatMap (['\n'] ++ ·) ++ rest := by
    induction lines with
    | nil => rfl
    | cons line lines ih =>
      rw [layout, ih, List.map_cons, List.flatMap_cons, scriptLine]
      simp
  obtain ⟨line, others, rfl⟩ := List.exists_cons_of_ne_nil hne
  rw [hflat, List.map_cons, Text.join_cons, List.flatMap_cons]
  simp

/-! ## Reading the translation -/

/-- A layout that is followed by a line begins on a line of its own. -/
theorem layout_newline (lines : List (Nat × Entry)) (r : Text) :
    ∃ s, layout lines ('\n' :: r) = '\n' :: s := by
  cases lines with
  | nil => exact ⟨r, rfl⟩
  | cons line lines => exact ⟨_, rfl⟩

/-- A line that is a comment is skipped. -/
theorem skip_layout_comment (n : Nat) {e : Entry} {note : Text} (hscript : e.script = '/' :: '/' :: note)
    (hnote : '\n' ∉ note) (lines : List (Nat × Entry)) (r : Text) :
    skip (layout ((n, e) :: lines) ('\n' :: r)) = skip (layout lines ('\n' :: r)) := by
  obtain ⟨s, hs⟩ := layout_newline lines r
  rw [skip_layout_cons, hscript, hs, List.cons_append, List.cons_append, skip_comment hnote,
    skip_newline]

/-- Every line has a character besides its line feed. -/
theorem two_mul_length_le (lines : List (Nat × Entry)) (rest : Text) :
    2 * lines.length ≤ (layout lines rest).length := by
  induction lines with
  | nil => simp
  | cons line lines ih =>
    have hpos := List.length_pos_of_ne_nil line.2.script_ne_nil
    simp only [layout, List.length_cons, List.length_append]
    omega

/-- What is run is read as one function over the commands of the outline. -/
theorem read_wrapped (indent : Nat → Nat) {o : Outline} (h : o.IsPlaced []) :
    ∃ s, Script.read (Translation.wrapped (translate (o.source indent)).code) = .ok [s] ∧
      IsFunction entryPoint [text "print", text "input"] true
        (o.commandsWith Counter.translatedClauses) s := by
  obtain ⟨n, inside, m, others, hlines, hinside, hothers⟩ := exists_block (o.map_snd_lines indent)
  obtain rfl : others = [] := by simpa using hothers
  have hclose : skip (layout [(m, .footer)] ['\n', '\x7d']) = ['\x7d'] := by
    rw [skip_layout_comment m rfl (by decide)]
    rfl
  have hopen : skip (layout (o.lines indent) ['\n', '\x7d'])
      = skip (layout inside (layout [(m, .footer)] ['\n', '\x7d'])) := by
    rw [hlines, skip_layout_comment n rfl (by decide), layout_append]
  -- header and footer are comments in the script, and the body is no longer than the whole
  have hlength : (layout inside (layout [(m, .footer)] ['\n', '\x7d'])).length
      ≤ (layout (o.lines indent) ['\n', '\x7d']).length := by
    calc _ = (layout (inside ++ [(m, .footer)]) ['\n', '\x7d']).length := by rw [layout_append]
      _ ≤ (layout ((n, .header) :: (inside ++ [(m, .footer)])) ['\n', '\x7d']).length := by
          rw [layout]
          simp only [List.length_cons, List.length_append]
          omega
      _ = _ := by rw [hlines]
  have hdouble := two_mul_length_le inside (layout [(m, .footer)] ['\n', '\x7d'])
  rw [code_translate_source]
  refine exists_read_wrapped fun fuel hfuel => ?_
  rw [layout_eq (o.lines_ne_nil indent), skip_newline] at hopen
  rw [layout_eq (o.lines_ne_nil indent), List.length_cons] at hlength
  have hfits : Fits (fuel + 1) fuel inside (layout [(m, .footer)] ['\n', '\x7d']) :=
    ⟨by omega, by omega⟩
  have houter : InLoop [] → false = true := fun hloop => absurd hloop not_inLoop_nil
  have hcommands := o.reads (fuel + 1) hinside h houter ⟨[], hclose⟩ hfits
  rw [hclose, ← hopen] at hcommands
  refine ⟨hcommands, ?_⟩
  have hcount := o.length_commandsWith_le Counter.translatedClauses
  rw [← hinside, List.length_map] at hcount
  omega

/-- A function that is a script by itself is a program. -/
theorem parse_eq_ok {t name : Text} {parameters : List Text} {isAsync : Bool} {cs : List Command}
    {s : Sentence} (hread : Script.read t = .ok [s]) (hs : IsFunction name parameters isAsync cs s) :
    ∃ program, Program.parse t = .ok program ∧
      Command.unplacedAll program = [.function nowhere name nowhere parameters isAsync cs] := by
  obtain ⟨start, namePlace, ss, rfl, hss⟩ := hs
  obtain ⟨cs', declared, hall, hcs⟩ := Statement.checkAll_means hss (LineIndex.ofText t)
    (parameters.map fun p => (p, .var)) (by simp [Declared.OnlyVariables])
  refine ⟨[.function ((LineIndex.ofText t).position start) name
    ((LineIndex.ofText t).position namePlace) parameters isAsync cs'], ?_, ?_⟩
  · rw [Program.parse_of_read hread]
    simp only [Statement.checkAll, Statement.check, Declared.add, List.lookup_nil, bind, Except.bind,
      hall]
    rfl
  · simp only [Command.unplacedAll, Command.unplaced, hcs]

/-- The program that is run is one function over the translated commands of the outline. -/
theorem parse_wrapped (indent : Nat → Nat) {o : Outline} (h : o.IsPlaced []) :
    ∃ program, Program.parse (Translation.wrapped (translate (o.source indent)).code) = .ok program ∧
      Command.unplacedAll program = [.function nowhere entryPoint nowhere
        [text "print", text "input"] true (o.commandsWith Counter.translatedClauses)] := by
  obtain ⟨s, hread, hs⟩ := read_wrapped indent h
  exact parse_eq_ok hread hs

end Outline

/-! ## Steps that are read as they are written -/

mutual

/-- Only the clauses of the counting loops that there are matter. -/
theorem Outline.commandsWith_congr {f g : Outline.Counter → Expression × Expression} :
    ∀ o : Outline, (∀ c ∈ o.counters, f c = g c) → o.commandsWith f = o.commandsWith g
  | .nil, _ => rfl
  | .simple s others, h => by
    rw [Outline.commandsWith, Outline.commandsWith, others.commandsWith_congr h]
  | .whileLoop c body others, h => by
    rw [Outline.counters, List.forall_mem_append] at h
    rw [Outline.commandsWith, Outline.commandsWith, body.commandsWith_congr h.1, others.commandsWith_congr h.2]
  | .forLoop c body others, h => by
    rw [Outline.counters, List.forall_mem_cons, List.forall_mem_append] at h
    rw [Outline.commandsWith, Outline.commandsWith, h.1, body.commandsWith_congr h.2.1,
      others.commandsWith_congr h.2.2]
  | .function name parameters body others, h => by
    rw [Outline.counters, List.forall_mem_append] at h
    rw [Outline.commandsWith, Outline.commandsWith, body.commandsWith_congr h.1, others.commandsWith_congr h.2]
  | .branch c yes no others, h => by
    rw [Outline.counters, List.forall_mem_append, List.forall_mem_append] at h
    rw [Outline.commandsWith, Outline.commandsWith, yes.commandsWith_congr h.1, no.commandWith_congr h.2.1,
      others.commandsWith_congr h.2.2]

/-- The same for alternatives. -/
theorem Alternatives.commandWith_congr {f g : Outline.Counter → Expression × Expression} :
    ∀ a : Alternatives, (∀ c ∈ a.counters, f c = g c) → a.commandWith f = a.commandWith g
  | .none, _ => rfl
  | .otherwise body, h => by
    rw [Alternatives.commandWith, Alternatives.commandWith, body.commandsWith_congr h]
  | .elseIf c yes no, h => by
    rw [Alternatives.counters, List.forall_mem_append] at h
    rw [Alternatives.commandWith, Alternatives.commandWith, yes.commandsWith_congr h.1, no.commandWith_congr h.2]

end

namespace Outline

/-- A step that is not misread is translated to what it says. -/
theorem Counter.translatedClauses_eq {c : Counter} (h : ∀ step ∈ c.step, ¬step.IsMisread) :
    c.translatedClauses = c.clauses := by
  unfold translatedClauses
  cases hstep : c.step with
  | none => rfl
  | some step => exact if_neg (h step hstep)

/-- The translation keeps the tree of an outline: the source has no errors, and what is run is one
    function with the commands of the outline as its body, if no step of a counting loop is misread
    as a number that it is not. -/
theorem parse_translation_eq_commands (indent : Nat → Nat) (o : Outline) (hplaced : o.IsPlaced [])
    (hsteps : ∀ c ∈ o.counters, ∀ step ∈ c.step, ¬step.IsMisread) :
    hasErrors (validate (o.source indent)) = false ∧
      ∃ program, Program.parse (Translation.wrapped (translate (o.source indent)).code) = .ok program ∧
        Command.unplacedAll program
          = [.function nowhere entryPoint nowhere [text "print", text "input"] true o.commands] := by
  obtain ⟨program, hparse, hprogram⟩ := parse_wrapped indent hplaced
  refine ⟨hasErrors_source indent hplaced, program, hparse, ?_⟩
  rw [hprogram, commands, o.commandsWith_congr fun c hc => c.translatedClauses_eq (hsteps c hc)]

/-- The name `i`. -/
def Name.i : Name where
  chars := ['i']
  start := ⟨'i', rfl, rfl⟩
  plain := by simp
  unreserved := by decide +kernel
  notKeyword := by decide

theorem isAlphanum_nan : ∀ c ∈ text "nan", c.isAlphanum = true ∨ c = '_' := by simp [text]

/-- The name `nan`. -/
def Name.nan : Name where
  chars := text "nan"
  start := ⟨'n', rfl, rfl⟩
  plain := isAlphanum_nan
  unreserved := by decide +kernel
  notKeyword := by decide

/-- The counting of `i` from one to one by a step. -/
def Counter.by (step : Bound) : Counter := ⟨.i, .digits .one, .digits .one, some step⟩

/-- A loop that prints what it counts. -/
def counting (step : Bound) : Outline :=
  .forLoop (.by step) (.simple (.print [.bound (.name .i)]) .nil) .nil

theorem counting_isPlaced (step : Bound) : (counting step).IsPlaced [] :=
  ⟨by simp [Validation.IsFresh], ⟨trivial, trivial⟩, trivial⟩

theorem parse_translation_eq_commands_one :
    (counting (.digits .one)).IsPlaced [] ∧
      (∀ c ∈ (counting (.digits .one)).counters, ∀ step ∈ c.step, ¬step.IsMisread) ∧
      ∃ program,
        Program.parse (Translation.wrapped (translate ((counting (.digits .one)).source fun _ => 0)).code)
          = .ok program ∧
        Command.unplacedAll program = [.function nowhere entryPoint nowhere
          [text "print", text "input"] true (counting (.digits .one)).commands] := by
  have hsteps : ∀ c ∈ (counting (.digits .one)).counters, ∀ step ∈ c.step, ¬step.IsMisread := by
    simp only [counting, counters, List.mem_cons, List.append_nil, List.not_mem_nil, or_false,
      forall_eq, Counter.by, Option.mem_some_iff]
    rintro step rfl
    decide +kernel
  exact ⟨counting_isPlaced _, hsteps,
    (parse_translation_eq_commands (fun _ => 0) _ (counting_isPlaced _) hsteps).2⟩

/-- A step that is named `nan` is lost: the loop that is run adds another name to its variable, and
    does not look at the sign of what it adds. -/
theorem parse_translation_ne_commands_nan :
    (counting (.name .nan)).IsPlaced [] ∧
      ∃ program,
        Program.parse (Translation.wrapped (translate ((counting (.name .nan)).source fun _ => 0)).code)
          = .ok program ∧
        Command.unplacedAll program ≠ [.function nowhere entryPoint nowhere
          [text "print", text "input"] true (counting (.name .nan)).commands] := by
  obtain ⟨program, hparse, hprogram⟩ := parse_wrapped (fun _ => 0) (counting_isPlaced (.name .nan))
  refine ⟨counting_isPlaced _, program, hparse, ?_⟩
  rw [hprogram]
  have hmisread : (Bound.name .nan).IsMisread := .inl (by decide)
  simp [counting, commands, commandsWith, Counter.translatedClauses, Counter.clauses, Counter.by,
    hmisread, Counter.runtimeClauses, Counter.compare]

end Outline

end Pseudocode
