import Pseudocode.Proofs.EventStream
import Pseudocode.Proofs.Placement
import Pseudocode.Proofs.TracedFailures
import Pseudocode.Proofs.ValidationGrammar

/-!
# Failures in sources

A program without validation errors that fails does so on a line of its script, which comes from a
line of the source. So the host is told that line, and sees its text. There are two exceptions: a
script that breaks off, whose fault is at the brace behind it, and an error with a place in its
message, which is taken for the place of the error.

* `Report.IsLocated`                the report is about a line of the source and shows it
* `Report.isLocated_located`        what makes a report such a one
* `Execution.isLocated_of_error`    which errors are told so
-/

namespace Pseudocode

open Script Translation

/-! ## Reports -/

/-- The report is about a line of the source: it has the number and the raw text of the line, and its
    message shows it. -/
def Report.IsLocated (source : Text) (r : Report) : Prop :=
  ∃ i line, (Source.lines source)[i]? = some line ∧ r.line = some (i + 1) ∧
    r.originalText = some line.raw ∧ Text.trim line.raw <:+: r.message

/-- The report is about no place. -/
def Report.IsUnlocated (r : Report) : Prop := r.line = none ∧ r.originalText = none

theorem Report.IsUnlocated.not_isLocated {r : Report} (h : r.IsUnlocated) (source : Text) :
    ¬r.IsLocated source := by
  rintro ⟨i, line, -, hline, -⟩
  rw [h.1] at hline
  cases hline

namespace Report

variable {source : Text} {p : Position}

/-- The surroundings of a place have its text. -/
theorem trim_isInfix_render (t : Translation) (headline : Text) (l : Location) (tips : List Text) :
    Text.trim l.text <:+: render t headline (some l) tips := by
  simp only [render, surroundings, Option.map_some, Option.getD_some, List.append_assoc]
  refine List.infix_append_of_infix_right (List.infix_append_of_infix_right ?_)
  exact List.infix_append_of_infix_right (List.infix_append' _ _ _)

/-- A trace tells nothing about the source. -/
theorem IsLocated.withStack {r : Report} (h : r.IsLocated source) (stack : Option Text) :
    IsLocated source { r with stack } := h

/-- Every line of the script comes from a line of the source, so a report of a place in the script is
    about that line. -/
theorem isLocated_located (hlines : Source.lines source ≠ [])
    (h : IsInScript (translate source).code p) (name headline : Text) (phase : Phase)
    (column : Option Nat) (tips : List Text) :
    (located (translate source) name headline phase
      (Location.find? (translate source) p.line column) tips).IsLocated source := by
  obtain ⟨hlow, hhigh⟩ := h
  rw [pieces_code_translate hlines, List.length_map] at hhigh
  obtain ⟨i, hi⟩ := Nat.exists_eq_add_of_lt hlow
  have hlt : i < (Source.lines source).length := by omega
  -- behind the wrapper's line, the script has one line for each line of the source
  have hentry : (translate source).entryOfWrapped? p.line = some (entryOf (Source.lines source)[i]) := by
    rw [hi, entryOfWrapped?, Nat.add_assoc, Nat.add_sub_cancel_left, entry?, nth?, translate,
      List.getElem?_map, List.getElem?_eq_getElem hlt, Option.map_some]
  obtain ⟨l, hl, hline, htext⟩ : ∃ l, Location.find? (translate source) p.line column = some l ∧
      l.line = i + 1 ∧ l.text = (Source.lines source)[i].raw := by
    rw [Location.find?, hentry]
    exact ⟨_, rfl, Source.number_lines hlt, rfl⟩
  rw [hl]
  refine ⟨i, _, List.getElem?_eq_getElem hlt, congrArg some hline, congrArg some htext, ?_⟩
  rw [← htext]
  exact trim_isInfix_render ..

/-- Nothing of the source is on the line below the script. -/
theorem isUnlocated_located (h : wrapperLines + (Source.lines source).length < p.line)
    (name headline : Text) (phase : Phase) (column : Option Nat) (tips : List Text) :
    (located (translate source) name headline phase
      (Location.find? (translate source) p.line column) tips).IsUnlocated := by
  obtain ⟨i, hi⟩ := Nat.exists_eq_add_of_lt h
  have hentry : (translate source).entryOfWrapped? p.line = none := by
    rw [hi, entryOfWrapped?, Nat.add_assoc, Nat.add_assoc, Nat.add_sub_cancel_left, ← Nat.add_assoc,
      entry?, nth?, translate, List.getElem?_map, List.getElem?_eq_none (Nat.le_add_right _ _)]
    rfl
  rw [Location.find?, hentry]
  exact ⟨rfl, rfl⟩

/-- The place of a failure is read back from its trace, unless there is a place in the message. -/
theorem isLocated_ofError (hlines : Source.lines source ≠ []) {f : Failure}
    (h : (Unwind.failed f).IsAt (IsInScript (translate source).code))
    (hmessage : Location.firstDigits? f.cause.message = none) :
    (ofError (translate source) f.cause.name f.cause.message f.stack f.position).IsLocated source := by
  simp only [ofError, Failure.inStack?_getD h.2 hmessage]
  exact (isLocated_located hlines h.1 ..).withStack (some f.stack)

end Report

/-! ## Runs -/

/-- A script is left on one of its lines. -/
theorem Script.Program.unwind_isInScript {code : Text} {program : Program}
    (hparse : Program.parse (wrapped code) = .ok program) {w : Watchdog} {maxCalls : Nat}
    {answers : List Text} {u : Unwind}
    (h : (program.run (Machine.start w maxCalls answers none)).ending = .unwound u) :
    u.IsAt (IsInScript code) := by
  unfold Program.run at h
  split at h
  · cases h
  · rename_i hrun
    cases h
    exact Program.unwind_isAt (Program.isLegalAt_of_parse_wrapped hparse) _ _ _ _ _ hrun

namespace Execution

open Report

/-- The errors that a host hears of a program without validation errors: that of a script that is no
    program, or the one that its run ends with. -/
theorem exists_of_error {source : Text} (hvalid : hasErrors (validate source) = false)
    (limits : Limits) (ids : Nat → Text) (replies : List Reply) {report : Report}
    (herror : .error report ∈ Exchange.events ((ofSource source limits ids).converse replies).1) :
    (∃ fault, Program.parse (wrapped (translate source).code) = .error fault ∧
      report = ofFault (translate source) fault.cause.message fault.position) ∨
    ∃ program answers, Program.parse (wrapped (translate source).code) = .ok program ∧
      let result := program.run (Machine.start (Watchdog.start limits.budget limits.policy)
        limits.maxCalls answers none)
      ∃ last, result.ending.Tells (translate source) limits last ∧ .error report ∈ last := by
  have hrun : ofSource source limits ids = start (Transcript.ofScript (translate source)
      (Program.parse (wrapped (translate source).code)) limits ids)
        (((validate source).map Finding.issue).map warning) := by
    simp only [ofSource, ofTranslation, hvalid, Bool.false_eq_true, if_false]
  obtain ⟨⟨said, hevents, hsaid⟩, -⟩ := converse_ofScript (translate source)
    (Program.parse (wrapped (translate source).code)) limits ids
    (((validate source).map Finding.issue).map warning) replies
  rw [hrun, hevents, List.mem_append] at herror
  -- warnings are no errors
  have herror : .error report ∈ said := herror.resolve_left fun hwarning => by
    obtain ⟨_, -, heq⟩ := List.mem_map.1 hwarning
    cases heq
  rcases hsaid with ⟨fault, told, hparse, -, rfl, rfl, -⟩ | ⟨program, answers, hparse, -, last, rfl, hlast⟩
  · obtain rfl := Event.error.inj (List.mem_singleton.1 herror)
    exact .inl ⟨fault, hparse, rfl⟩
  -- nor does the program write any before its end
  · have herror : .error report ∈ last := (List.mem_append.1 herror).resolve_left fun hlog => by
      have hterminal := Transcript.isTerminal_of_mem_eventsFrom _ hlog
      cases hterminal
    refine .inr ⟨program, answers, hparse, last, ?_, herror⟩
    split at hlast
    · rw [hlast.2] at herror
      cases herror
    · exact hlast

/-- Every failure of a program without validation errors is on a line of the source, and the host is
    told which one, with its raw text, and sees it in the message. But if the script breaks off at the
    end, no line is told; and if the message of an error has a place in it, the line of that place is
    told, if any. -/
theorem isLocated_of_error {source : Text} (hvalid : hasErrors (validate source) = false)
    (limits : Limits) (ids : Nat → Text) (replies : List Reply) {report : Report}
    (herror : .error report ∈ Exchange.events ((ofSource source limits ids).converse replies).1) :
    (report.phase = .parsing → ∃ fault,
      Program.parse (wrapped (translate source).code) = .error fault ∧
        if fault.position.line = wrapperLines + (Source.lines source).length + 1
          then report.IsUnlocated else report.IsLocated source) ∧
    (report.phase = .runtime → ∃ program answers f,
      Program.parse (wrapped (translate source).code) = .ok program ∧
        (program.run (Machine.start (Watchdog.start limits.budget limits.policy) limits.maxCalls
          answers none)).ending = .unwound (.failed f) ∧
        report = ofError (translate source) f.cause.name f.cause.message f.stack f.position ∧
        (Location.firstDigits? f.cause.message = none → report.IsLocated source)) ∧
    (report.phase = .timeout → report.IsLocated source) := by
  have hlines := Validation.lines_ne_nil_of_hasErrors_findings hvalid
  -- the reader has refused the script, or a run of it has ended with the error
  rcases exists_of_error hvalid limits ids replies herror with
    ⟨fault, hparse, rfl⟩ | ⟨program, answers, hparse, last, htells, hlast⟩
  · refine ⟨fun _ => ⟨fault, hparse, ?_⟩, nofun, nofun⟩
    have hline := Program.line_of_parse_wrapped hparse
    rw [pieces_code_translate hlines, List.length_map] at hline
    split
    · rename_i hbelow
      exact isUnlocated_located (hbelow ▸ Nat.lt_succ_self _) ..
    · rename_i hbelow
      exact isLocated_located hlines (hline.resolve_right hbelow) ..
  · generalize hending : (program.run _).ending = ending at htells
    cases htells with
    | done => simp at hlast
    | failed f =>
      obtain rfl := Event.error.inj (List.mem_singleton.1 hlast)
      refine ⟨nofun, fun _ => ⟨program, answers, f, hparse, hending, rfl, fun hmessage => ?_⟩, nofun⟩
      exact isLocated_ofError hlines (Program.unwind_isInScript hparse hending) hmessage
    | timedOut place =>
      obtain rfl := Event.error.inj (List.mem_singleton.1 hlast)
      refine ⟨nofun, nofun, fun _ => ?_⟩
      exact isLocated_located hlines (Program.unwind_isInScript hparse hending) ..
    | brokenDown cause =>
      obtain rfl : report = ofInternal cause := by simpa using hlast
      exact ⟨nofun, nofun, nofun⟩

/-- What is seen of the only error of a run without input. -/
private theorem exists_error_of_seen {α : Type} (source : Text) (look : Report → α) (seen : α)
    (h : ((Exchange.events ((ofSource source .default fun _ => []).converse []).1).filterMap
      fun e => match e with
        | .error report => some (look report)
        | _ => none) = [seen]) :
    ∃ report, .error report ∈ Exchange.events ((ofSource source .default fun _ => []).converse []).1 ∧
      look report = seen := by
  obtain ⟨e, he, hlook⟩ := List.mem_filterMap.1 (h ▸ List.mem_singleton_self seen)
  split at hlook
  · rename_i report
    exact ⟨report, he, Option.some.inj hlook⟩
  · cases hlook

/-- An operand is missing at the end of a line. -/
def missingOperand : Text := text "Algorithm A\nx = 1 +\nEndAlgorithm"

/-- The line is told on which an operand is missing. -/
theorem isLocated_of_error_missingOperand :
    hasErrors (validate missingOperand) = false ∧ ∃ report,
      .error report ∈ Exchange.events
        ((ofSource missingOperand .default fun _ => []).converse []).1 ∧
      report.phase = .parsing ∧ report.IsLocated missingOperand := by
  have hvalid : hasErrors (validate missingOperand) = false := by decide +kernel
  obtain ⟨report, herror, hphase⟩ :=
    exists_error_of_seen missingOperand Report.phase .parsing (by decide +kernel)
  obtain ⟨fault, hparse, hlocated⟩ :=
    (isLocated_of_error hvalid .default (fun _ => []) [] herror).1 hphase
  have hline : ((Program.parse (wrapped (translate missingOperand).code)).mapError
      fun fault => fault.position.line).map (fun _ => ()) = .error 3 := by decide +kernel
  rw [hparse] at hline
  have hthird : fault.position.line = 3 := Except.error.inj hline
  rw [if_neg (by rw [hthird]; decide)] at hlocated
  exact ⟨hvalid, report, herror, hphase, hlocated⟩

/-- A statement ends in a comment, which takes its end away. -/
def commentedEnd : Text := text "Algorithm A\nx = 1 //\nEndAlgorithm"

/-- A key looks like a place behind the script. -/
def keyBehind : Text := text "Algorithm A\nvar a\nprint a['<sandbox>:99:1']\nEndAlgorithm"

/-- No line is told where a script breaks off, nor where a place in the message leads nowhere. -/
theorem error_isUnlocated :
    (hasErrors (validate commentedEnd) = false ∧ ∃ report,
      .error report ∈ Exchange.events ((ofSource commentedEnd .default fun _ => []).converse []).1 ∧
      report.phase = .parsing ∧ report.IsUnlocated ∧ ¬report.IsLocated commentedEnd) ∧
    hasErrors (validate keyBehind) = false ∧ ∃ report,
      .error report ∈ Exchange.events ((ofSource keyBehind .default fun _ => []).converse []).1 ∧
      report.phase = .runtime ∧ report.IsUnlocated ∧ ¬report.IsLocated keyBehind := by
  refine ⟨⟨by decide +kernel, ?_⟩, by decide +kernel, ?_⟩
  · obtain ⟨report, herror, hseen⟩ := exists_error_of_seen commentedEnd
      (fun r => (r.phase, r.line, r.originalText)) (.parsing, none, none) (by decide +kernel)
    obtain ⟨hphase, hplace⟩ := Prod.mk.inj hseen
    have hunlocated : report.IsUnlocated := Prod.mk.inj hplace
    exact ⟨report, herror, hphase, hunlocated, hunlocated.not_isLocated _⟩
  · obtain ⟨report, herror, hseen⟩ := exists_error_of_seen keyBehind
      (fun r => (r.phase, r.line, r.originalText)) (.runtime, none, none) (by decide +kernel)
    obtain ⟨hphase, hplace⟩ := Prod.mk.inj hseen
    have hunlocated : report.IsUnlocated := Prod.mk.inj hplace
    exact ⟨report, herror, hphase, hunlocated, hunlocated.not_isLocated _⟩

end Execution

end Pseudocode
