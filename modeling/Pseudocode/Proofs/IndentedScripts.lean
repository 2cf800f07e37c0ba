import Pseudocode.Proofs.Indentation
import Pseudocode.Proofs.Twins

/-!
# Scripts do not depend on indentation

A line of a script stands behind the white space of its source line. White space of a source line
is any that Unicode knows, white space of a script is four characters only, and in a string literal
that goes on in the next line it is part of the string. Apart from that, the indentation of a source
decides about nothing but the columns of its program.

* `Line.HasMargin`            the white space before a line is white space of scripts
* `alike_wrapped_translate`   sources with the same trimmed lines have scripts that are alike
* `Script.Program.agree_parse_translate`   what is run is the same program, up to columns
-/

namespace Pseudocode

open Script Translation

/-- If there is something on the line, the white space before it is white space of scripts. -/
def Line.HasMargin (line : Line) : Prop := line.trimmed ≠ [] → line.leading.all isGap = true

instance (line : Line) : Decidable line.HasMargin :=
  inferInstanceAs (Decidable (line.trimmed ≠ [] → line.leading.all isGap = true))

/-! ## Lines of scripts -/

section

variable {line line' : Line} {lines lines' : List Line} {source source' t t' : Text}

theorem Line.HasMargin.isMargin (h : line.HasMargin) (hraw : '\n' ∉ line.raw)
    (hne : line.trimmed ≠ []) : ∀ c ∈ line.leading, isMargin c = true := by
  intro c hc
  have hline : c ≠ '\n' := by
    rintro rfl
    exact hraw ((List.takeWhile_prefix _).subset hc)
  simp [Script.isMargin, List.all_eq_true.1 (h hne) c hc, hline]

/-- Lines with the same trimmed text are written alike. -/
theorem alike_scriptLine (htrimmed : line.trimmed = line'.trimmed) (hraw : '\n' ∉ line.raw)
    (hraw' : '\n' ∉ line'.raw) (hmargin : line.HasMargin) (hmargin' : line'.HasMargin)
    (h : Alike t t') :
    Alike ('\n' :: (scriptLine line ++ t)) ('\n' :: (scriptLine line' ++ t')) := by
  have hnewline := newline_not_mem_scriptLine hraw
  unfold scriptLine at hnewline ⊢
  rw [← htrimmed]
  generalize hscript : statement line.trimmed (Statement.classify line.trimmed) = script
  rw [hscript] at hnewline
  cases script with
  | nil =>
    -- the white space of a blank line is not written
    exact .cons_newline h
  | cons c script =>
    have hne : line.trimmed ≠ [] := by
      intro hempty
      rw [hempty] at hscript
      cases hscript
    simp only [List.isEmpty_cons, Bool.false_eq_true, ↓reduceIte, List.append_assoc,
      List.mem_append, not_or] at hnewline ⊢
    exact .newline (hmargin.isMargin hraw hne) (hmargin'.isMargin hraw' (htrimmed ▸ hne))
      (h.append_left hnewline.2)

/-- Lines with the same trimmed texts, each behind a line feed, are written alike. -/
theorem alike_flatMap_scriptLine (htrimmed : lines.map Line.trimmed = lines'.map Line.trimmed)
    (hraw : ∀ line ∈ lines, '\n' ∉ line.raw) (hraw' : ∀ line ∈ lines', '\n' ∉ line.raw)
    (hmargin : ∀ line ∈ lines, line.HasMargin) (hmargin' : ∀ line ∈ lines', line.HasMargin)
    (h : Alike t t') :
    Alike ((lines.map scriptLine).flatMap (['\n'] ++ ·) ++ t)
      ((lines'.map scriptLine).flatMap (['\n'] ++ ·) ++ t') := by
  induction lines generalizing lines' with
  | nil =>
    obtain rfl := List.map_eq_nil_iff.1 htrimmed.symm
    exact h
  | cons line lines ih =>
    obtain ⟨line', lines', rfl, hline, hlines⟩ := List.map_eq_cons_iff.1 htrimmed.symm
    rw [List.forall_mem_cons] at hraw hraw' hmargin hmargin'
    have hbehind := ih hlines.symm hraw.2 hraw'.2 hmargin.2 hmargin'.2
    simpa using alike_scriptLine hline.symm hraw.1 hraw'.1 hmargin.1 hmargin'.1 hbehind

/-- What is run for sources with the same trimmed lines is alike. -/
theorem alike_wrapped_translate
    (htrimmed : (Source.lines source).map Line.trimmed = (Source.lines source').map Line.trimmed)
    (hmargin : ∀ line ∈ Source.lines source, line.HasMargin)
    (hmargin' : ∀ line ∈ Source.lines source', line.HasMargin) :
    Alike (wrapped (translate source).code) (wrapped (translate source').code) := by
  have hheader : '\n' ∉ text "async function __program__(print, input) \x7b" := by decide
  have hwrapped (code : Text) : wrapped code =
      text "async function __program__(print, input) \x7b" ++ ('\n' :: (code ++ text "\n\x7d")) := by
    simp [wrapped, text]
  have hfooter : Alike (text "\n\x7d") (text "\n\x7d") :=
    .cons_newline (Alike.nil.append_left (w := ['\x7d']) (by decide))
  rw [hwrapped, hwrapped]
  refine Alike.append_left hheader ?_
  have hlines := alike_flatMap_scriptLine htrimmed (fun _ => Source.newline_not_mem_raw)
    (fun _ => Source.newline_not_mem_raw) hmargin hmargin' hfooter
  simp only [translate]
  generalize Source.lines source = lines at htrimmed hlines ⊢
  generalize Source.lines source' = lines' at htrimmed hlines ⊢
  cases lines with
  | nil =>
    -- without lines there is one empty line in the function
    obtain rfl := List.map_eq_nil_iff.1 htrimmed.symm
    exact .cons_newline hfooter
  | cons line lines =>
    obtain ⟨line', lines', rfl, -, -⟩ := List.map_eq_cons_iff.1 htrimmed.symm
    simpa [Text.join_cons] using hlines

end

/-! ## Programs -/

namespace Script

/-- Sources whose lines have the same trimmed texts are run as the same program, up to columns, if
    their lines are indented by white space of scripts and no string literal goes on in the next
    line; or neither of them is run. -/
theorem Program.agree_parse_translate {source source' : Text}
    (htrimmed : (Source.lines source).map Line.trimmed = (Source.lines source').map Line.trimmed)
    (hmargin : ∀ line ∈ Source.lines source, line.HasMargin)
    (hmargin' : ∀ line ∈ Source.lines source', line.HasMargin)
    (hstrings : HoldsStrings (wrapped (translate source).code)) :
    Program.Agree (Program.parse (wrapped (translate source).code))
      (Program.parse (wrapped (translate source').code)) :=
  Program.agree_of_alike (alike_wrapped_translate htrimmed hmargin hmargin') hstrings

/-- A program that is indented by spaces and a tab. -/
private def tabbed : Text := text "Algorithm A\nx = 1\n  \tprint x\n\n EndAlgorithm"

/-- The same program, indented by spaces in other places. -/
private def spaced : Text := text "Algorithm A\n    x = 1\nprint x\n \nEndAlgorithm"

/-- Two ways to indent a program, which is run. -/
theorem Program.agree_parse_translate_tabbed :
    ((Source.lines tabbed).map Line.trimmed = (Source.lines spaced).map Line.trimmed ∧
      (∀ line ∈ Source.lines tabbed, line.HasMargin) ∧
      (∀ line ∈ Source.lines spaced, line.HasMargin) ∧
      HoldsStrings (wrapped (translate tabbed).code)) ∧
    Program.Agree (Program.parse (wrapped (translate tabbed).code))
      (Program.parse (wrapped (translate spaced).code)) ∧
    (Program.parse (wrapped (translate tabbed).code)).isOk = true := by
  have htrimmed : (Source.lines tabbed).map Line.trimmed = (Source.lines spaced).map Line.trimmed :=
    by decide
  have hmargin : ∀ line ∈ Source.lines tabbed, line.HasMargin := by decide
  have hmargin' : ∀ line ∈ Source.lines spaced, line.HasMargin := by decide
  have hstrings : HoldsStrings (wrapped (translate tabbed).code) :=
    holdsStrings_of_not_isInfix (by decide +kernel)
  exact ⟨⟨htrimmed, hmargin, hmargin', hstrings⟩,
    Program.agree_parse_translate htrimmed hmargin hmargin' hstrings, by decide +kernel⟩

/-- A program that is indented by a no-break space. -/
private def noBreakIndented : Text := text "Algorithm A\n\u00a0print 5\nEndAlgorithm"

/-- The same program without indentation. -/
private def unindented : Text := text "Algorithm A\nprint 5\nEndAlgorithm"

/-- A print statement whose operand is a string on two lines, between comments. -/
private def stringOfComments : Text :=
  text "Algorithm A\nprint /*\n# */ \"a \\\n# b\"); /*\n# */\nEndAlgorithm"

/-- The same program with the second line of the string indented. -/
private def indentedStringOfComments : Text :=
  text "Algorithm A\nprint /*\n# */ \"a \\\n  # b\"); /*\n# */\nEndAlgorithm"

/-- The string that the only statement of a function is called with. -/
private def argument? : Program → Option Text
  | [.function _ _ _ _ _ [.expression (.call _ _ [.string _ value])]] => some value
  | _ => none

/-- Neither condition can be left out. A no-break space is white space around a line but not in a
    script, so a program without errors is not a script where it is indented by one. And an operand
    that is put together from comments is a string with the white space of its second line in it. -/
theorem Program.not_agree_parse_translate :
    ((Source.lines noBreakIndented).map Line.trimmed = (Source.lines unindented).map Line.trimmed ∧
      hasErrors (validate noBreakIndented) = false ∧ hasErrors (validate unindented) = false ∧
      ¬ Program.Agree (Program.parse (wrapped (translate noBreakIndented).code))
        (Program.parse (wrapped (translate unindented).code))) ∧
    (Source.lines stringOfComments).map Line.trimmed =
        (Source.lines indentedStringOfComments).map Line.trimmed ∧
      hasErrors (validate stringOfComments) = false ∧
      hasErrors (validate indentedStringOfComments) = false ∧
      ¬ Program.Agree (Program.parse (wrapped (translate stringOfComments).code))
        (Program.parse (wrapped (translate indentedStringOfComments).code)) := by
  refine ⟨⟨by decide, by decide +kernel, by decide +kernel, fun h => ?_⟩, by decide,
    by decide +kernel, by decide +kernel, fun h => ?_⟩
  · have hsome := congrArg Option.isSome h.toOption_eq
    rw [Option.isSome_map, Option.isSome_map] at hsome
    exact absurd hsome (by decide +kernel)
  · exact absurd (congrArg (·.bind argument?) h.toOption_eq) (by decide +kernel)

end Script

end Pseudocode
