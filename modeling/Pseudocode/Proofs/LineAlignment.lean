import Pseudocode.Proofs.Operands
import Pseudocode.Report.Location

/-!
# Lines of the script and lines of the source

A statement of one line is written as one line, so the script has as many lines as the source and
its lines stand in the order of the source lines. The text that is run has one line more above the
script, and the mapping takes that offset back.
-/

namespace Pseudocode

/-! ## Rewritten operands -/

namespace Expression

theorem newline_not_mem_wordOperator? {w v : Text} (h : wordOperator? w = some v) : '\n' ∉ v := by
  have hspelled : ∀ u ∈ [text "&&", text "||", ['!'], ['%'], text "true", text "false"], '\n' ∉ u := by
    decide
  apply hspelled
  simp only [wordOperator?] at h
  repeat' split at h
  all_goals
    first
    | cases h; done
    | obtain rfl := Option.some.inj h
      simp [*]

theorem newline_not_mem_rewriteSign {context : Context} {before : Option Char} {c : Char}
    {after : Option Token} (h : c ≠ '\n') : '\n' ∉ rewriteSign context before c after := by
  rw [rewriteSign]
  repeat' split
  all_goals first | decide | simpa using h.symm

theorem newline_not_mem_rewriteTokens {context : Context} {before : Option Char} {ts : List Token}
    (h : ∀ token ∈ ts, '\n' ∉ token.chars) : '\n' ∉ rewriteTokens context before ts := by
  -- literals are copied, words and signs give way to texts without line feeds
  fun_induction rewriteTokens context before ts with
  | case1 => simp
  | case2 before chars closed r ih =>
    simp only [List.forall_mem_cons, Token.chars] at h
    simp [h.1, ih h.2]
  | case3 before w r written ih =>
    simp only [List.forall_mem_cons, Token.chars] at h
    have hwritten : '\n' ∉ written := by
      simp only [written]
      split
      · exact h.1
      · cases hw : wordOperator? w with
        | none => exact h.1
        | some v => exact newline_not_mem_wordOperator? hw
    simp [hwritten, ih h.2]
  | case4 before r ih =>
    simp only [List.forall_mem_cons] at h
    have hunequal : '\n' ∉ text "!=" := by decide
    simp [hunequal, ih h.2.2]
  | case5 before c r _ ih =>
    simp only [List.forall_mem_cons, Token.chars, List.mem_singleton] at h
    simp [newline_not_mem_rewriteSign (Ne.symm h.1), ih h.2]

/-- Operators are spelled within the line. -/
theorem newline_not_mem_rewrite {context : Context} {t : Text} (h : '\n' ∉ t) :
    '\n' ∉ rewrite context t := by
  refine newline_not_mem_rewriteTokens fun token htoken hc => ?_
  have hmem : '\n' ∈ (tokens (Text.trim t)).flatMap Token.chars := List.mem_flatMap.2 ⟨token, htoken, hc⟩
  rw [chars_tokens] at hmem
  exact h ((Text.trim_isInfix t).subset hmem)

end Expression

/-! ## Numbers -/

theorem Text.newline_not_mem_ofNat (n : Nat) : '\n' ∉ Text.ofNat n := by
  intro h
  have := Nat.isDigit_of_mem_toDigits (by omega) (by omega) h
  revert this
  decide

theorem Decimal.newline_not_mem_positional (d : Decimal.Scientific) :
    '\n' ∉ Decimal.positional d := by
  have htake (n : Nat) : '\n' ∉ (Text.ofNat d.digits).take n := fun h =>
    Text.newline_not_mem_ofNat _ (List.mem_of_mem_take h)
  have hdrop (n : Nat) : '\n' ∉ (Text.ofNat d.digits).drop n := fun h =>
    Text.newline_not_mem_ofNat _ (List.mem_of_mem_drop h)
  simp only [positional]
  split
  · simp [Text.newline_not_mem_ofNat]
  · split <;> simp [Text.newline_not_mem_ofNat, htake, hdrop]

theorem Numeral.newline_not_mem_shortestText (x : Double) : '\n' ∉ Numeral.shortestText x := by
  cases x with
  | nan => decide
  | infinite negative => cases negative <;> decide
  | finite negative m q =>
    have := Decimal.newline_not_mem_positional (Decimal.shortest m q)
    cases negative <;> by_cases hm : m = 0 <;> simp [shortestText, hm, this]

/-! ## Statements -/

namespace Translation

theorem newline_not_mem_value {t : Text} (h : '\n' ∉ t) : '\n' ∉ value t :=
  Expression.newline_not_mem_rewrite h

theorem newline_not_mem_condition {t : Text} (h : '\n' ∉ t) : '\n' ∉ condition t :=
  Expression.newline_not_mem_rewrite h

theorem newline_not_mem_inputCall {prompt : Option Text} (h : '\n' ∉ prompt.getD []) :
    '\n' ∉ inputCall prompt := by
  cases prompt with
  | none => decide
  | some prompt =>
    have hvalue := newline_not_mem_value (t := prompt) h
    simp [inputCall, text, hvalue]

theorem newline_not_mem_initializer {init : Initializer} (h : '\n' ∉ init.operand) :
    '\n' ∉ initializer init := by
  cases init with
  | expression operand => exact newline_not_mem_value h
  | input prompt => exact newline_not_mem_inputCall h

theorem newline_not_mem_loopClauses {name stop : Text} {step : Option Text} (hname : '\n' ∉ name)
    (hstop : '\n' ∉ stop) (hstep : '\n' ∉ step.getD []) :
    '\n' ∉ (loopClauses name stop step).1 ∧ '\n' ∉ (loopClauses name stop step).2 := by
  cases step with
  | none => simp [loopClauses, text, hname, hstop]
  | some step =>
    simp only [loopClauses]
    split
    · split <;> simp [text, hname, hstop, Numeral.newline_not_mem_shortestText]
    · have hvalue := newline_not_mem_value (t := step) hstep
      simp [text, hname, hstop, hvalue]

theorem newline_not_mem_join {sep : Text} {parts : List Text} (hsep : '\n' ∉ sep)
    (h : ∀ p ∈ parts, '\n' ∉ p) : '\n' ∉ Text.join sep parts := by
  induction parts with
  | nil => simp [Text.join, List.intercalate]
  | cons p rest ih =>
    rw [List.forall_mem_cons] at h
    cases rest with
    | nil => simpa [Text.join, List.intercalate] using h.1
    | cons q rest =>
      have hrest := ih h.2
      simp only [Text.join, List.intercalate, List.intersperse_cons_cons, List.flatten_cons,
        List.mem_append, not_or] at hrest ⊢
      exact ⟨h.1, hsep, hrest⟩

/-- A statement of one line is written as one line. -/
theorem newline_not_mem_statement {line : Text} {s : Statement} (hline : '\n' ∉ line)
    (hs : ∀ operand ∈ s.operands, '\n' ∉ operand) : '\n' ∉ statement line s := by
  -- what is not understood is kept as a comment, and the line has no line feed to begin with
  have hverbatim : '\n' ∉ verbatim line := by
    unfold verbatim
    split
    · split <;> simp [hline]
    · decide
  have hcomma : '\n' ∉ text ", " := by decide
  cases s with
  | malformed form fault => exact hverbatim
  | raw t => exact hverbatim
  | blank => simp [statement]
  | comment note =>
    have hnote := hs note (by simp [Statement.operands])
    simp only [statement]
    split <;> simp [text, hnote]
  | header name =>
    have hname := hs name (by simp [Statement.operands])
    simp [statement, text, hname]
  | footer => simp [statement, text]
  | forLoop name start stop step =>
    simp only [Statement.operands, List.forall_mem_cons] at hs
    obtain ⟨hname, hstart, hstop, hstep⟩ := hs
    have hstep : '\n' ∉ step.getD [] := by cases step <;> simp_all
    have hclauses := newline_not_mem_loopClauses hname (newline_not_mem_value hstop) hstep
    simp [statement, forLoop, text, hname, newline_not_mem_value hstart, hclauses]
  | whileLoop c =>
    have hc := newline_not_mem_condition (hs c (by simp [Statement.operands]))
    simp [statement, opening, text, hc]
  | branch c =>
    have hc := newline_not_mem_condition (hs c (by simp [Statement.operands]))
    simp [statement, opening, text, hc]
  | elseIf c =>
    have hc := newline_not_mem_condition (hs c (by simp [Statement.operands]))
    simp [statement, opening, text, hc]
  | otherwise => simp [statement, text]
  | function name parameters =>
    simp only [Statement.operands, List.forall_mem_cons] at hs
    have hparameters := newline_not_mem_join hcomma hs.2
    simpa [statement, text, hs.1] using hparameters
  | returning value =>
    cases value with
    | none => simp [statement, text]
    | some v =>
      have hv := newline_not_mem_value (hs v (by simp [Statement.operands]))
      simp [statement, text, hv]
  | breaking => simp [statement, text]
  | continuing => simp [statement, text]
  | ending kind => simp [statement, text]
  | declaration kind name size init =>
    have hname := hs name (by simp [Statement.operands])
    have hword : '\n' ∉ declarationWord kind := by
      unfold declarationWord
      split <;> simp [text]
    simp only [statement, declaration]
    split
    · next size =>
      have hsize := newline_not_mem_value (hs size (by simp [Statement.operands]))
      simp [text, hword, hname, hsize]
    · next init =>
      have hinit := newline_not_mem_initializer (hs init.operand (by simp [Statement.operands]))
      simp [text, hword, hname, hinit]
    · simp [text, hname]
  | set v target =>
    have hv := newline_not_mem_value (hs v (by simp [Statement.operands]))
    have htarget := newline_not_mem_value (hs target (by simp [Statement.operands]))
    simp [statement, text, hv, htarget]
  | declare name typeName =>
    simp only [Statement.operands, List.forall_mem_cons] at hs
    simp [statement, text, hs.1, hs.2.1]
  | print items =>
    have hitems : ∀ p ∈ items.map value, '\n' ∉ p := by
      intro p hp
      obtain ⟨item, hitem, rfl⟩ := List.mem_map.1 hp
      exact newline_not_mem_value (hs item hitem)
    have hjoin := newline_not_mem_join hcomma hitems
    simpa [statement, text] using hjoin
  | input prompt target =>
    have hprompt : '\n' ∉ prompt.getD [] := by
      cases prompt with
      | none => simp
      | some p => exact hs p (by simp [Statement.operands])
    have hcall := newline_not_mem_inputCall hprompt
    cases target with
    | none => simp [statement, hcall]
    | some target =>
      have htarget := newline_not_mem_value (hs target (by simp [Statement.operands]))
      simp [statement, text, hcall, htarget]
  | assignment target operator v =>
    have htarget := newline_not_mem_value (hs target (by simp [Statement.operands]))
    have hv := newline_not_mem_initializer (hs v.operand (by simp [Statement.operands]))
    have hsign : '\n' ∉ operator.sign := by cases operator <;> decide
    cases v with
    | expression operand => simpa [statement, htarget, hsign, initializer] using hv
    | input prompt => simpa [statement, text, htarget, initializer] using hv
  | call called =>
    have hcalled := newline_not_mem_value (hs called (by simp [Statement.operands]))
    simp [statement, hcalled]

/-- A line of the script is one line. -/
theorem newline_not_mem_scriptLine {line : Line} (h : '\n' ∉ line.raw) :
    '\n' ∉ scriptLine line := by
  have htrimmed : '\n' ∉ line.trimmed := fun hmem => h ((Text.trim_isInfix _).subset hmem)
  have hleading : '\n' ∉ line.leading := fun hmem => h ((List.takeWhile_prefix _).subset hmem)
  have hstatement := newline_not_mem_statement htrimmed (Statement.newline_not_mem_operands htrimmed)
  simp only [scriptLine]
  split
  · exact hstatement
  · simp [hleading, hstatement]

end Translation

/-! ## Source lines -/

namespace Source

theorem newline_not_mem_dropReturn {t : Text} (h : '\n' ∉ t) : '\n' ∉ Line.dropReturn t := by
  rw [Line.dropReturn]
  cases hr : Text.dropEnd? ['\r'] t with
  | none => exact h
  | some r =>
    intro hmem
    rw [Text.dropEnd?_eq_some hr] at h
    exact h (List.mem_append_left _ hmem)

theorem newline_not_mem_lineTexts {source t : Text} (h : t ∈ lineTexts source) : '\n' ∉ t := by
  have hended : ∀ t ∈ (Text.pieces '\n' source).dropLast.map Line.dropReturn, '\n' ∉ t := by
    intro t ht
    obtain ⟨p, hp, rfl⟩ := List.mem_map.1 ht
    exact newline_not_mem_dropReturn (Text.not_mem_of_mem_pieces ((List.dropLast_subset _) hp))
  simp only [lineTexts] at h
  split at h
  · exact hended t h
  · next rest hrest =>
    split at h
    · exact hended t h
    · rcases List.mem_append.1 h with h | h
      · exact hended t h
      · obtain rfl := List.mem_singleton.1 h
        exact Text.not_mem_of_mem_pieces (List.mem_of_getLast? hrest)

theorem newline_not_mem_raw {source : Text} {line : Line} (h : line ∈ lines source) :
    '\n' ∉ line.raw := by
  obtain ⟨i, hi, rfl⟩ := List.mem_mapIdx.1 h
  exact newline_not_mem_dropReturn (newline_not_mem_lineTexts (List.getElem_mem hi))

/-- A line that ends in a character that shows. -/
theorem dropReturn_concat {c : Char} (hc : Text.isBlank c = false) (t : Text) :
    Line.dropReturn (t ++ [c]) = t ++ [c] := by
  have hreturn : '\r' ≠ c := by
    rintro rfl
    exact absurd hc (by decide)
  rw [Line.dropReturn, Text.dropEnd?_concat_of_ne hreturn, Option.getD_none]

/-- The lines of a text that is made of lines, each with a character at its end that shows. -/
theorem map_raw_lines_join {ws : List Text} (hne : ws ≠ []) (hline : ∀ w ∈ ws, '\n' ∉ w)
    (hend : ∀ w ∈ ws, ∃ t c, w = t ++ [c] ∧ Text.isBlank c = false) :
    (lines (Text.join ['\n'] ws)).map Line.raw = ws := by
  have hreturn {ws : List Text} (hend : ∀ w ∈ ws, ∃ t c, w = t ++ [c] ∧ Text.isBlank c = false) :
      ws.map Line.dropReturn = ws := by
    refine (List.map_congr_left fun w hw => ?_).trans (List.map_id ws)
    obtain ⟨t, c, rfl, hc⟩ := hend w hw
    exact dropReturn_concat hc t
  -- the last line shows, so no empty line is dropped behind it
  have htexts : lineTexts (Text.join ['\n'] ws) = ws := by
    obtain ⟨init, last, rfl⟩ := (List.eq_nil_or_concat ws).resolve_left hne
    rw [List.concat_eq_append] at hend hline ⊢
    obtain ⟨t, c, hlast, -⟩ := hend last (by simp)
    have hshows : last.isEmpty = false := by simp [hlast]
    rw [lineTexts, Text.pieces_join (by simp) hline, List.dropLast_concat, List.getLast?_concat,
      hreturn fun w hw => hend w (List.mem_append_left _ hw)]
    simp only [hshows, Bool.false_eq_true, ↓reduceIte]
  rw [lines, htexts, ← List.map_id ws]
  refine List.ext_getElem (by simp) fun i hi _ => ?_
  have hi : i < ws.length := by simpa using hi
  obtain ⟨t, c, hw, hc⟩ := hend ws[i] (List.getElem_mem hi)
  simp [Line.ofText, hw, dropReturn_concat hc]

/-- Lines are numbered from one. -/
theorem number_lines {source : Text} {i : Nat} (h : i < (lines source).length) :
    (lines source)[i].number = i + 1 := by
  simp [lines, Line.ofText]

end Source

/-! ## Alignment -/

namespace Translation

/-- The script of a line with the given text: what its statement is written as, after the white
    space of the line, or nothing. -/
def emission (raw : Text) : Text :=
  let script := statement (Text.trim raw) (Statement.classify (Text.trim raw))
  if script.isEmpty then script else Text.leadingBlanks raw ++ script

theorem scriptLine_eq_emission (line : Line) : scriptLine line = emission line.raw := rfl

/-- The lines of a translation stand where the given lines of a source do, in the script itself and,
    one line further down, in the text that is run. -/
structure IsAligned (t : Translation) (lines : List Line) : Prop where
  mapping_length : t.mapping.length = lines.length
  pieces_length : (Text.pieces '\n' t.code).length = lines.length
  entry (i : Nat) (hi : i < lines.length) : t.entry? (i + 1) = some ⟨i + 1, i + 1, lines[i].raw⟩
  generatedText (i : Nat) (hi : i < lines.length) :
    t.generatedText? (i + 1) = some (emission lines[i].raw)
  wrappedText (i : Nat) (hi : i < lines.length) :
    nth? (Text.pieces '\n' (wrapped t.code)) (i + 2) = some (emission lines[i].raw)
  entryOfWrapped (i : Nat) (hi : i < lines.length) :
    t.entryOfWrapped? (i + 2) = some ⟨i + 1, i + 1, lines[i].raw⟩
  outside (n : Nat) (hn : n ≤ 1 ∨ lines.length + 1 < n) : t.entryOfWrapped? n = none

/-- The lines of the script are the lines of the source, each written by itself. -/
theorem pieces_code_translate {source : Text} (h : Source.lines source ≠ []) :
    Text.pieces '\n' (translate source).code = (Source.lines source).map scriptLine := by
  rw [translate]
  refine Text.pieces_join (by simpa using h) fun p hp => ?_
  obtain ⟨line, hline, rfl⟩ := List.mem_map.1 hp
  exact newline_not_mem_scriptLine (Source.newline_not_mem_raw hline)

/-- The script of a text that is made of lines. -/
theorem code_translate_join {ws : List Text} (hne : ws ≠ []) (hline : ∀ w ∈ ws, '\n' ∉ w)
    (hend : ∀ w ∈ ws, ∃ t c, w = t ++ [c] ∧ Text.isBlank c = false) :
    (translate (Text.join ['\n'] ws)).code = Text.join ['\n'] (ws.map emission) := by
  have hlines : (Source.lines (Text.join ['\n'] ws)).map scriptLine
      = ((Source.lines (Text.join ['\n'] ws)).map Line.raw).map emission := by
    rw [List.map_map]
    rfl
  rw [translate, hlines, Source.map_raw_lines_join hne hline hend]

/-- The text that is run has one line above the script and one below. -/
theorem pieces_wrapped (code : Text) :
    Text.pieces '\n' (wrapped code) =
      text "async function __program__(print, input) \x7b" ::
        (Text.pieces '\n' code ++ [['\x7d']]) := by
  have hheader : Text.pieces '\n' (text "async function __program__(print, input) \x7b") =
      [text "async function __program__(print, input) \x7b"] := by decide
  have hfooter : Text.pieces '\n' ['\x7d'] = [['\x7d']] := by decide
  have hwrapped : wrapped code = text "async function __program__(print, input) \x7b" ++
      '\n' :: (code ++ '\n' :: ['\x7d']) := by
    simp [wrapped, text]
  rw [hwrapped, Text.pieces_append_cons, Text.pieces_append_cons, hheader, hfooter]
  rfl

end Translation

/-- Every line of the script stands where its source line does, so a place in the text that is run
    leads back to the line that it comes from. -/
theorem translate_isAligned (source : Text) (h : Source.lines source ≠ []) :
    (translate source).IsAligned (Source.lines source) where
  mapping_length := by simp [translate]
  pieces_length := by simp [Translation.pieces_code_translate h]
  entry i hi := by
    simp [translate, Translation.entry?, Translation.nth?, Translation.entryOf,
      Source.number_lines hi, hi]
  generatedText i hi := by
    simp [Translation.generatedText?, Translation.pieces_code_translate h, Translation.nth?,
      Translation.scriptLine_eq_emission, hi]
  wrappedText i hi := by
    rw [Translation.pieces_wrapped, Translation.pieces_code_translate h]
    simp [Translation.nth?, Translation.scriptLine_eq_emission, List.getElem?_append, hi]
  entryOfWrapped i hi := by
    simp [translate, Translation.entryOfWrapped?, Translation.wrapperLines, Translation.entry?,
      Translation.nth?, Translation.entryOf, Source.number_lines hi, hi]
  outside n hn := by
    rw [Translation.entryOfWrapped?, Translation.entry?, Translation.wrapperLines]
    rcases hn with hn | hn
    · -- the header of the wrapper, or no line at all
      obtain rfl | rfl : n = 0 ∨ n = 1 := by omega
      · rfl
      · rfl
    · obtain ⟨i, rfl⟩ : ∃ i, n = i + 2 := ⟨n - 2, by omega⟩
      have hi : (translate source).mapping.length ≤ i := by
        simp only [translate, List.length_map]
        omega
      exact List.getElem?_eq_none hi

/-- A source of three lines, a blank one among them. -/
theorem translate_isAligned_blank :
    Source.lines (text "Algorithm a\n\nEndAlgorithm") ≠ [] ∧
      (translate (text "Algorithm a\n\nEndAlgorithm")).IsAligned
        (Source.lines (text "Algorithm a\n\nEndAlgorithm")) :=
  have h : Source.lines (text "Algorithm a\n\nEndAlgorithm") ≠ [] := by decide
  ⟨h, translate_isAligned _ h⟩

end Pseudocode
