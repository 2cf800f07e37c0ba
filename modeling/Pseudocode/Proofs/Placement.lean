import Pseudocode.Proofs.EvaluationProperty
import Pseudocode.Proofs.LineAlignment

/-!
# Where a script stands in its function

The function around a script has a line above the script and a line below. Nothing that is checked or
run stands on the line above. On the line below there is only the brace that closes the function, and
that is where a text is no longer understood if it breaks off.

* `Translation.IsInScript`               the positions on the lines of a script
* `Program.isLegalAt_of_parse_wrapped`   a program in its function is run on the lines of the script
* `Program.line_of_parse_wrapped`        a fault is on a line of the script, or on the line below
-/

namespace Pseudocode

open Script

/-! ## Lines -/

namespace Translation

/-- The first place of a script in the text that is run. -/
def scriptStart : Nat := (text "async function __program__(print, input) \x7b\n").length

/-- The position is on a line of the script. -/
def IsInScript (code : Text) (p : Position) : Prop :=
  wrapperLines < p.line ∧ p.line ≤ wrapperLines + (Text.pieces '\n' code).length

variable {code : Text} {offset : Nat}

theorem length_wrapped (code : Text) : (wrapped code).length = scriptStart + (code.length + 2) := by
  rw [wrapped, List.length_append, List.length_append, Nat.add_assoc]
  rfl

/-- Nothing of the script is on the first line. -/
theorem wrapperLines_lt_line_scan (h : scriptStart ≤ offset) :
    wrapperLines < (Position.scan (wrapped code) offset).line := by
  have hheader : wrapperLines =
      (text "async function __program__(print, input) \x7b\n").count '\n' := by decide
  rw [Position.line_scan, hheader, wrapped, List.append_assoc, List.take_append,
    List.take_of_length_le h, List.count_append]
  omega

theorem line_scan_wrapped_le (code : Text) (offset : Nat) :
    (Position.scan (wrapped code) offset).line ≤ wrapperLines + (Text.pieces '\n' code).length + 1 := by
  have hcount := ((wrapped code).take_sublist offset).count_le '\n'
  have hlines := congrArg List.length (pieces_wrapped code)
  rw [Text.length_pieces, List.length_cons, List.length_append, List.length_singleton] at hlines
  rw [Position.line_scan, wrapperLines]
  omega

/-- Behind the script there is nothing but a brace. -/
theorem offset_le_of_standsFrom (h : StandsFrom scriptStart (wrapped code) offset) :
    offset ≤ scriptStart + code.length := by
  obtain ⟨-, c, r, hdrop, hc⟩ := h
  by_contra hbeyond
  obtain ⟨n, rfl⟩ := Nat.exists_eq_add_of_lt (Nat.lt_of_not_le hbeyond)
  rw [wrapped, List.drop_append, List.length_append,
    List.drop_of_length_le (by rw [List.length_append, ← scriptStart]; omega), ← scriptStart,
    Nat.add_assoc _ n, Nat.add_sub_cancel_left] at hdrop
  cases n with
  | zero => exact hc (List.cons.inj hdrop).1.symm
  | succ n => simp [text] at hdrop

/-- What stands in the script, and is no closing brace, is on one of its lines. -/
theorem isInScript_of_standsFrom (h : StandsFrom scriptStart (wrapped code) offset) :
    IsInScript code (Position.scan (wrapped code) offset) := by
  refine ⟨wrapperLines_lt_line_scan h.1, ?_⟩
  have hwithin := offset_le_of_standsFrom h
  rw [scriptStart, ← List.length_append] at hwithin
  have hcount := ((text "async function __program__(print, input) \x7b\n" ++ code).take_sublist
    offset).count_le '\n'
  rw [List.count_append, show (text "async function __program__(print, input) \x7b\n").count '\n' =
    wrapperLines by decide] at hcount
  rw [Position.line_scan, wrapped, List.take_append_of_le_length hwithin, Text.length_pieces]
  exact Nat.succ_le_succ hcount

end Translation

namespace Script

open Reader Grammar Translation

/-! ## What is understood -/

section

variable {fuel depth : Nat} {self : Reader Sentence} {c : Cursor} {r : Text}

theorem result_sign_cons (s : Char) (r : Text) (offset : Nat) :
    (sign s ⟨s :: r, offset⟩).result = some ((), Cursor.skipGap ⟨r, offset + 1⟩) := by
  rw [sign, result_token, List.head?_cons, if_pos rfl]
  rfl

/-- Behind an opening brace, the first sentence counts. -/
theorem reach_le_braces (self : Reader Sentence) (r : Text) (offset : Nat) :
    (self (Cursor.skipGap ⟨r, offset + 1⟩)).reach ≤
      (braces (fuel + 1) self ⟨'\x7b' :: r, offset⟩).reach := by
  refine Nat.le_trans (reach_le_many fuel) (Nat.le_trans ?_ reach_le_part)
  refine Nat.le_trans ?_ (reach_le_bind_of_eq_some (result_sign_cons '\x7b' r offset))
  exact reach_le_bind

/-- A text is understood at least up to where a sentence is expected. -/
theorem offset_le_reach_statement (h : c.rest.length < depth) :
    c.offset ≤ (statement (fuel + 1) depth c).reach := by
  induction depth generalizing c with
  | zero => cases h
  | succ depth ih =>
    -- the first thing that is tried is a block, and then the first sentence inside it
    have hblock : c.offset ≤ (braces (fuel + 1) (statement (fuel + 1) depth) c).reach := by
      cases hsign : (sign '\x7b' c).result with
      | none =>
        refine offset_le_reach_part ?_
        rw [Reader.result_bind, hsign]
        rfl
      | some found =>
        obtain ⟨r, hrest, -⟩ := sign_eq_some hsign
        obtain ⟨rest, offset⟩ := c
        subst hrest
        have hinside : (Cursor.skipGap ⟨r, offset + 1⟩).rest.length < depth :=
          Nat.lt_of_le_of_lt (List.drop_sublist _ r).length_le (Nat.lt_of_succ_lt_succ h)
        refine Nat.le_trans ?_ (Nat.le_trans (ih hinside) (reach_le_braces _ r offset))
        exact Nat.le_trans (Nat.le_succ offset) (Nat.le_add_right _ _)
    exact hblock.trans (reach_le_bind.trans reach_le_orElse)

/-- Where there is no block, a function is tried. -/
theorem reach_function_le (h : r.head? ≠ some '\x7b') (offset : Nat) :
    (Grammar.function fuel self ⟨r, offset⟩).reach ≤ (sentence fuel self ⟨r, offset⟩).reach := by
  have hblock : Fails (do return .block (← braces fuel self) : Reader Sentence) r :=
    (fails_sign h).bind.part.bind
  exact Nat.le_trans reach_le_orElse (reach_le_orElse_of_eq_none (hblock.result_eq_none offset))

end

/-! ## The function -/

/-- The sentence is written in the script. -/
abbrev Sentence.IsWrittenIn (code : Text) (s : Sentence) : Prop :=
  Sentence.IsWritten (StandsFrom scriptStart (wrapped code)) IsIdentifier s

/-- What is known of the first sentence of a script in its function: it is the function, and its body
    is written in the script. -/
def WrapsScript (code : Text) (s : Sentence) : Prop :=
  ∃ start namePlace body,
    s = .function start entryPoint namePlace [text "print", text "input"] true body ∧
      ∀ s ∈ body, Sentence.IsWrittenIn code s

section

variable {code : Text} {depth : Nat}

/-- From the script on, sentences are written in the script. -/
theorem finds_statement_script (code : Text) (fuel depth : Nat) :
    Finds (Cursor.IsFrom scriptStart (wrapped code)) (Sentence.IsWrittenIn code)
      (statement fuel depth) :=
  finds_statement (surveys_standsFrom scriptStart (wrapped code)) names_isIdentifier depth

/-- Behind the brace that opens the function there is the script. -/
theorem isFrom_inside {inside : Nat}
    (h : Cursor.IsFrom 0 (wrapped code) ⟨'\x7b' :: '\n' :: (code ++ ['\n', '\x7d']), inside⟩) :
    Cursor.IsFrom scriptStart (wrapped code)
      (Cursor.skipGap ⟨'\n' :: (code ++ ['\n', '\x7d']), inside + 1⟩) := by
  refine ⟨((h.advance 1).advance _).1, ?_⟩
  have hlength := congrArg List.length h.1
  simp only [List.length_drop, length_wrapped, List.length_cons, List.length_append,
    List.length_nil] at hlength
  have hoffset : scriptStart ≤ inside + 1 + (1 + gapLength 0 (code ++ ['\n', '\x7d'])) := by omega
  exact hoffset

/-- The function is understood at least up to the script, and what is read in it and behind it stands
    in the script. -/
theorem function_wrapped_script (hdepth : code.length + 2 < depth) :
    let reading := Grammar.function ((wrapped code).length + 1)
      (statement ((wrapped code).length + 1) depth) ⟨wrapped code, 0⟩
    scriptStart ≤ reading.reach ∧ ∀ s c, reading.result = some (s, c) →
      WrapsScript code s ∧ c.IsFrom scriptStart (wrapped code) := by
  refine function_wrapped_of (K := fun reading => scriptStart ≤ reading.reach ∧
      ∀ s c, reading.result = some (s, c) → WrapsScript code s ∧ c.IsFrom scriptStart (wrapped code))
    (fun _ _ _ hle hK => ⟨Nat.le_trans hK.1 hle, hK.2⟩) (surveys_standsFrom 0 (wrapped code))
    (Nat.succ_le_succ (length_wrapped_pos code)) ⟨rfl, Nat.le_refl _⟩
    fun start namePlace inside hinside => ?_
  have hfrom := isFrom_inside hinside
  constructor
  · have hrest : (skip ('\n' :: (code ++ ['\n', '\x7d']))).length < depth := by
      rw [skip_newline]
      refine Nat.lt_of_le_of_lt (List.drop_sublist _ _).length_le ?_
      rwa [List.length_append]
    -- the first sentence is expected behind the brace
    refine Nat.le_trans ?_ ((reach_le_braces _ _ inside).trans reach_le_bind)
    exact hfrom.2.trans (offset_le_reach_statement hrest)
  · intro s c hresult
    rw [Reader.result_bind, Option.bind_eq_some_iff] at hresult
    obtain ⟨⟨body, last⟩, hbraces, heq⟩ := hresult
    obtain ⟨rfl, rfl⟩ := Prod.mk.inj (Option.some.inj heq)
    rw [braces, result_part, Reader.result_bind, result_sign_cons] at hbraces
    obtain ⟨hbody, hlast⟩ := finds_inside (surveys_standsFrom scriptStart (wrapped code))
      (finds_statement_script code _ depth) _ _ _ hfrom hbraces
    exact ⟨⟨start, namePlace, body, rfl, hbody⟩, hlast⟩

theorem length_lt_length_wrapped (code : Text) : code.length + 2 < (wrapped code).length := by
  rw [length_wrapped]
  exact Nat.lt_add_of_pos_left (by decide)

/-- A text that is no script is understood at least up to the script in it. -/
theorem scriptStart_le_of_read_wrapped {reach : Nat} (h : read (wrapped code) = .error reach) :
    scriptStart ≤ reach := by
  have hreach : reach = (program ((wrapped code).length + 1) ⟨wrapped code, 0⟩).reach := by
    unfold read at h
    split at h
    · cases h
    · rename_i hprogram
      obtain rfl := Except.error.inj h
      rw [← ofText_wrapped, hprogram]
  rw [hreach]
  have hhead : (wrapped code).head? ≠ some '\x7b' := by
    rintro ⟨⟩
  refine Nat.le_trans (function_wrapped_script (length_lt_length_wrapped code)).1 ?_
  refine Nat.le_trans (reach_function_le hhead 0) ?_
  exact Nat.le_trans (reach_le_many _) reach_le_bind

/-- What is read in the function and behind it stands in the script. -/
theorem written_of_read_wrapped {sentences : List Sentence}
    (h : read (wrapped code) = .ok sentences) :
    ∃ s others, sentences = s :: others ∧ WrapsScript code s ∧
      ∀ s ∈ others, Sentence.IsWrittenIn code s := by
  obtain ⟨s, next, others, last, hfunction, rfl, hothers, -⟩ := exists_of_read_wrapped h
  obtain ⟨hs, hnext⟩ :=
    (function_wrapped_script (length_lt_length_wrapped code)).2 s next hfunction
  have hmany := (finds_statement_script code ((wrapped code).length + 1)
    ((wrapped code).length + 1)).many (wrapped code).length
  exact ⟨s, others, rfl, hs, (hmany _ _ _ hnext hothers).1⟩

end

/-! ## The program -/

section

variable {code : Text}

/-- Everything in the script stands on its lines. -/
theorem isCarried_isInScript (code : Text) :
    IsCarried (LineIndex.ofText (wrapped code)) (StandsFrom scriptStart (wrapped code))
      (fun fault => IsInScript code fault.position)
      (Expression.IsSoundAt (IsInScript code)) (IsInScript code) := by
  refine isCarried_isSoundAt fun offset h => ?_
  rw [LineIndex.position_ofText (Nat.le_of_lt h.lt_length)]
  exact isInScript_of_standsFrom h

/-- A statement stands on the lines of the script, unless it is the function around it. -/
abbrev Command.StandsInScript (code : Text) (c : Command) : Prop :=
  c.Everywhere (Expression.IsSoundAt (IsInScript code)) (IsInScript code) (fun _ => True) IsIdentifier

/-- The name of the function is the first one that is declared, so its place is not looked at. -/
theorem settles_checkAll_wrapped {sentences : List Sentence}
    (h : read (wrapped code) = .ok sentences) :
    Settles (fun fault => IsInScript code fault.position)
      (fun found => ∀ c ∈ found.1, c.StandsInScript code)
      (Statement.checkAll ⟨LineIndex.ofText (wrapped code), false, false⟩ [] sentences) := by
  obtain ⟨_, others, rfl, ⟨start, namePlace, body, rfl, hbody⟩, hothers⟩ :=
    written_of_read_wrapped h
  have hcarried := isCarried_isInScript code
  have hadded : Declared.add (LineIndex.ofText (wrapped code)) namePlace entryPoint .var [] =
      .ok [(entryPoint, .var)] := rfl
  simp only [Statement.checkAll, Statement.check, hadded]
  refine Settles.bind (P := fun found => found.1.StandsInScript code) ?_
    fun c hc => (hcarried.checkAll hothers _ rfl c.2).bind fun cs hcs => settles_pure ?_
  · refine (hcarried.checkAll hbody _ rfl _).bind fun found hfound => settles_pure ?_
    -- the places of the wrapper itself are not looked at
    exact .function trivial trivial entryPoint_isIdentifier fun c hc =>
      (hfound c hc).weaken fun _ _ => trivial
  · exact List.forall_mem_cons.2 ⟨hc, fun c hc => (hcs c hc).weaken fun _ _ => trivial⟩

/-- What a script in its function does, it does on the lines of the script. -/
theorem Program.isLegalAt_of_parse_wrapped {program : Program}
    (h : Program.parse (wrapped code) = .ok program) :
    ∀ c ∈ program, c.IsLegalAt (IsInScript code) IsIdentifier false false := by
  obtain ⟨sentences, declared, hread, hcheck⟩ := Program.exists_of_parse h
  have hsettles := settles_checkAll_wrapped hread
  rw [hcheck] at hsettles
  exact fun c hc => ⟨Program.isLegal_of_parse h c hc, hsettles c hc⟩

/-- A fault of a script in its function is on a line of the script, or on the line below: there the
    text breaks off. -/
theorem Program.line_of_parse_wrapped {fault : Program.Fault}
    (h : Program.parse (wrapped code) = .error fault) : IsInScript code fault.position ∨
      fault.position.line = wrapperLines + (Text.pieces '\n' code).length + 1 := by
  unfold Program.parse at h
  split at h
  -- the reader fails behind the wrapper's head, in its closing line at the latest
  · rename_i reach hread
    obtain rfl := Except.error.inj h
    have hlow : wrapperLines < (Position.scan (wrapped code) reach).line :=
      wrapperLines_lt_line_scan (scriptStart_le_of_read_wrapped hread)
    have hhigh := line_scan_wrapped_le code reach
    exact (Nat.lt_or_eq_of_le hhigh).imp (fun hlt => ⟨hlow, Nat.le_of_lt_succ hlt⟩) id
  -- the checks fail at places of the script only
  · rename_i sentences hread
    have hsettles := settles_checkAll_wrapped hread
    cases hcheck : Statement.checkAll ⟨LineIndex.ofText (wrapped code), false, false⟩ [] sentences with
    | ok found =>
      rw [hcheck] at h
      cases h
    | error found =>
      rw [hcheck] at h hsettles
      obtain rfl := Except.error.inj h
      exact .inl hsettles

end

end Script

end Pseudocode
