import Pseudocode.Proofs.LineAlignment
import Pseudocode.Proofs.OutlineTranslation
import Pseudocode.Proofs.Wrapper

/-!
# Braces of a translation

Only braces lead out of the function around a script. A statement is written with braces of its own
where it opens or closes a block, and those of a structured program match; so a program stays inside
of the function unless an operand brings in braces, or hides some by a comment or a string literal
that it leaves open.

* `braces?`                    the braces of a line
* `WritesItsBraces`            a line of the script has the braces of its statement and no others
* `wrapper_holds_program`      such a program is inside of the function around it
-/

namespace Pseudocode

/-! ## Braces of a line -/

namespace Script

/-- The braces of a text, comments and string literals left out, if it leaves none of these open
    but a comment up to the end of the line; `inside` of the next characters belong to a comment or
    a string literal. -/
def bracesFrom (inside : Nat) : Text → Option (List Char)
  | [] => some []
  | c :: r =>
    match inside with
    | inside + 1 => bracesFrom inside r
    | 0 =>
      match coverLength? (c :: r) with
      | some (length + 1) => bracesFrom length r
      | _ =>
        if c = '"' ∨ c = '\'' ∨ c = '/' ∧ r.head? = some '*' then none
        else if c = '\x7b' ∨ c = '\x7d' then (bracesFrom 0 r).map (c :: ·)
        else bracesFrom 0 r

/-- The braces of a line. -/
def braces? (line : Text) : Option (List Char) := bracesFrom 0 line

/-- The depth that braces lead to, unless one closes what they have not opened. -/
def depthAfter : (depth : Nat) → List Char → Option Nat
  | depth, [] => some depth
  | depth, brace :: others =>
    if brace = '\x7b' then depthAfter (depth + 1) others
    else match depth with
      | 0 => none
      | depth + 1 => depthAfter depth others

theorem depthAfter_append (depth : Nat) (braces others : List Char) :
    depthAfter depth (braces ++ others)
      = (depthAfter depth braces).bind fun depth => depthAfter depth others := by
  induction braces generalizing depth with
  | nil => rfl
  | cons brace braces ih =>
    simp only [List.cons_append, depthAfter]
    split
    · exact ih (depth + 1)
    · cases depth with
      | zero => rfl
      | succ depth => exact ih depth

section

variable {c : Char} {r s t : Text} {n : Nat}

theorem commentEnd?_append (h : commentEnd? s = some n) (t : Text) :
    commentEnd? (s ++ t) = some n := by
  fun_induction commentEnd? s generalizing n with
  | case1 r => exact h
  | case2 c r hne ih =>
    obtain ⟨m, hm, rfl⟩ := Option.map_eq_some_iff.1 h
    cases r with
    | nil => cases hm
    | cons d r =>
      rw [List.cons_append, commentEnd?, ih hm]
      · rfl
      · rintro rest rfl hrest
        obtain ⟨rfl, -⟩ := List.cons.inj hrest
        exact hne r rfl rfl
  | case3 => cases h

theorem quoted?_append_of_eq_some {quote : Char} {w : Text} (h : Token.quoted? quote s = some w)
    (t : Text) : Token.quoted? quote (s ++ t) = some w := by
  fun_induction Token.quoted? quote s generalizing w with
  | case1 | case2 => cases h
  | case3 c r ih =>
    obtain ⟨inner, hinner, rfl⟩ := Option.map_eq_some_iff.1 h
    simp only [List.cons_append, Token.quoted?, ih hinner, Option.map_some]
  -- the closing quote: what follows it is not read
  | case4 r hlast hescape =>
    have hmark : quote ≠ '\\' := by
      rintro rfl
      cases r with
      | nil => exact hlast rfl rfl
      | cons d r => exact hescape d r rfl rfl
    rwa [List.cons_append, quoted?_cons hmark, if_pos rfl]
  | case5 => cases h
  | case6 c r hlast hescape hquote hfeed ih =>
    have hmark : c ≠ '\\' := by
      rintro rfl
      cases r with
      | nil => exact hlast rfl rfl
      | cons d r => exact hescape d r rfl rfl
    obtain ⟨inner, hinner, rfl⟩ := Option.map_eq_some_iff.1 h
    rw [List.cons_append, quoted?_cons hmark, if_neg hquote, if_neg hfeed, ih hinner]
    rfl

theorem coverLength?_le (h : coverLength? t = some n) : n ≤ t.length := by
  rcases Option.or_eq_some_iff.1 h with hcomment | ⟨-, hstring⟩
  · exact commentLength?_le hcomment
  · obtain ⟨⟨w, _⟩, hscan, rfl⟩ := Option.map_eq_some_iff.1 hstring
    unfold Token.string? at hscan
    split at hscan
    · cases hscan
    · split at hscan
      · obtain ⟨written, hwritten, hw⟩ := Option.map_eq_some_iff.1 hscan
        obtain ⟨-, rfl⟩ := Prod.mk.inj hw
        have hlt := quoted?_lt hwritten
        simp only [List.length_cons]
        omega
      · cases hscan

theorem commentLength?_line (h : commentLength? s = some n) (hline : '\n' ∉ s) (t : Text) :
    commentLength? (s ++ '\n' :: t) = some n := by
  unfold commentLength? at h
  split at h
  · rename_i r
    have hplain : ∀ c ∈ r, decide (c ≠ '\n') = true := by
      intro c hc
      rw [decide_eq_true_eq]
      rintro rfl
      exact hline (by simp [hc])
    -- the comment ends at the line feed that is put behind it
    have hnote : (r ++ '\n' :: t).takeWhile (· ≠ '\n') = r.takeWhile (· ≠ '\n') := by
      rw [List.takeWhile_append_of_pos hplain, List.takeWhile_eq_self_iff.2 hplain]
      simp
    rw [List.cons_append, List.cons_append, commentLength?, hnote, h]
  · rename_i r
    obtain ⟨m, hm, rfl⟩ := Option.map_eq_some_iff.1 h
    rw [List.cons_append, List.cons_append, commentLength?, commentEnd?_append hm]
    rfl
  · cases h

/-- A comment or a string literal of a line ends on that line. -/
theorem coverLength?_line (h : coverLength? s = some n) (hline : '\n' ∉ s) (t : Text) :
    coverLength? (s ++ '\n' :: t) = some n := by
  rcases Option.or_eq_some_iff.1 h with hcomment | ⟨hnone, hstring⟩
  · rw [coverLength?, commentLength?_line hcomment hline]
    rfl
  · obtain ⟨⟨w, _⟩, hscan, rfl⟩ := Option.map_eq_some_iff.1 hstring
    cases s with
    | nil => cases hscan
    | cons quote r =>
      have hcomment : commentLength? (quote :: (r ++ '\n' :: t)) = none := by
        refine commentLength?_eq_none ?_ _
        rintro rfl
        cases hscan
      -- a closed string stays as it is, whatever follows
      have hextended : Token.string? (quote :: (r ++ '\n' :: t)) = Token.string? (quote :: r) := by
        simp only [Token.string?] at hscan ⊢
        split at hscan
        · rename_i hquote
          obtain ⟨written, hwritten, -⟩ := Option.map_eq_some_iff.1 hscan
          rw [quoted?_append_of_eq_some hwritten, hwritten]
        · cases hscan
      rw [List.cons_append, coverLength?, hcomment, hextended, hscan]
      rfl

/-- No comment or string literal begins where a line leaves none of these open. -/
theorem coverLength?_line_none (hcover : ∀ m, coverLength? (c :: r) ≠ some (m + 1))
    (hopen : ¬(c = '"' ∨ c = '\'' ∨ c = '/' ∧ r.head? = some '*')) (t : Text) :
    coverLength? (c :: (r ++ '\n' :: t)) = none := by
  simp only [not_or, not_and] at hopen
  have hcomment : commentLength? (c :: (r ++ '\n' :: t)) = none := by
    by_cases hslash : c = '/'
    · subst hslash
      cases r with
      | nil => rfl
      | cons d r =>
        -- two slashes would have been a comment already
        have hnote : d ≠ '/' := by
          rintro rfl
          refine hcover (1 + (r.takeWhile (· ≠ '\n')).length) ?_
          simp only [coverLength?, commentLength?, Option.some_or, Option.some.injEq]
          omega
        have hblock : d ≠ '*' := fun hd => hopen.2.2 rfl (by simp [hd])
        simp [commentLength?, hnote, hblock]
    · exact commentLength?_eq_none hslash _
  rw [coverLength?, hcomment, string?_eq_none_of_ne hopen.1 hopen.2.1]
  rfl

theorem bracesFrom_append_of_isPlain {w : Text} (h : w.all isPlain = true) (r : Text) :
    bracesFrom 0 (w ++ r) = bracesFrom 0 r := by
  induction w with
  | nil => rfl
  | cons c w ih =>
    rw [List.all_cons, Bool.and_eq_true] at h
    have hcover := coverLength?_of_isPlain h.1 (w ++ r)
    have hplain := h.1
    simp only [isPlain, List.mem_cons, List.not_mem_nil, or_false, not_or, decide_eq_true_eq] at hplain
    simp only [List.cons_append, bracesFrom, hcover, hplain, false_and, or_self, ↓reduceIte, ih h.2]

theorem bracesFrom_length (t : Text) : bracesFrom t.length t = some [] := by
  induction t with
  | nil => rfl
  | cons c t ih => exact ih

theorem bracesFrom_comment (h : '\n' ∉ t) : bracesFrom 0 ('/' :: '/' :: t) = some [] := by
  have hnote : t.takeWhile (· ≠ '\n') = t := by
    rw [List.takeWhile_eq_self_iff]
    intro c hc
    rw [decide_eq_true_eq]
    rintro rfl
    exact h hc
  have hcover : coverLength? ('/' :: '/' :: t) = some (t.length + 1 + 1) := by
    simp only [coverLength?, commentLength?, hnote, Option.some_or, Option.some.injEq]
    omega
  simp only [bracesFrom, hcover]
  exact bracesFrom_length t

/-- The braces of a line change the depth at which the next line stands. -/
theorem behind_line {line : Text} {inside depth depth' : Nat} {braces : List Char}
    (hbraces : bracesFrom inside line = some braces) (hinside : inside ≤ line.length)
    (hdepth : depthAfter depth braces = some depth') (hline : '\n' ∉ line) (t : Text) :
    behind depth inside (line ++ '\n' :: t) = behind depth' 0 t := by
  induction line generalizing inside depth braces with
  | nil =>
    obtain rfl : inside = 0 := by simpa using hinside
    obtain rfl := Option.some.inj hbraces
    obtain rfl := Option.some.inj hdepth
    exact behind_cons_of_isPlain rfl t
  | cons c r ih =>
    rw [List.mem_cons, not_or] at hline
    cases inside with
    | succ inside => exact ih hbraces (by simpa using hinside) hdepth hline.2
    | zero =>
      -- both functions look for a comment or a literal first, which is as long with the next line
      -- behind it as without
      simp only [bracesFrom] at hbraces
      split at hbraces
      · rename_i n hcover
        have hle : n ≤ r.length := by simpa using coverLength?_le hcover
        have hcover' := coverLength?_line hcover (by simp [hline]) t
        rw [← ih hbraces hle hdepth hline.2]
        rw [List.cons_append] at hcover'
        simp only [List.cons_append, behind, hcover']
      · rename_i hcover
        split at hbraces
        · cases hbraces
        rename_i hopen
        have hcover' := coverLength?_line_none (fun m hm => hcover m hm) hopen t
        rw [List.cons_append]
        split at hbraces
        · rename_i hbrace
          obtain ⟨others, hothers, rfl⟩ := Option.map_eq_some_iff.1 hbraces
          rcases hbrace with rfl | rfl
          · rw [behind_opening]
            exact ih hothers (Nat.zero_le _) hdepth hline.2
          · cases depth with
            | zero => cases hdepth
            | succ depth =>
              rw [behind_closing]
              exact ih hothers (Nat.zero_le _) hdepth hline.2
        · rename_i hbrace
          rw [not_or] at hbrace
          rw [← ih hbraces (Nat.zero_le _) hdepth hline.2]
          simp only [behind, hcover', hbrace.1, hbrace.2, ↓reduceIte]

end

end Script

/-! ## Braces of a program -/

open Script Validation

namespace Statement

/-- The braces that a statement is written with. -/
def braces : Statement → List Char
  | .forLoop _ _ _ _ | .whileLoop _ | .branch _ | .function _ _ => ['\x7b']
  | .elseIf _ | .otherwise => ['\x7d', '\x7b']
  | .ending _ => ['\x7d']
  | .blank | .comment _ | .header _ | .footer | .returning _ | .breaking | .continuing
  | .declaration _ _ _ _ | .set _ _ | .declare _ _ | .print _ | .input _ _ | .assignment _ _ _
  | .call _ | .malformed _ _ | .raw _ => []

theorem braces_eq_nil {s : Statement} {around : List Enclosing} (h : MayStand around s) :
    s.braces = [] := by
  cases s <;> first | rfl | exact absurd h id

end Statement

namespace Validation

/-- What a part does to the depth of the braces: a body leaves it as it is, and the alternatives
    close the branch. -/
def Part.startDepth (depth : Nat) : Part → Nat
  | .body => depth
  | .alternatives => depth + 1

/-- The braces of a part match. -/
theorem IsPart.depthAfter {around : List Enclosing} {part : Part} {S : List Statement}
    (h : IsPart around part S) (depth : Nat) :
    Script.depthAfter (part.startDepth depth) (S.flatMap Statement.braces) = some depth := by
  -- the blocks inside of a part stand one level deeper, whatever the depth of the part
  induction h generalizing depth with
  | nil => rfl
  | simple placed _ ih =>
    rw [List.flatMap_cons, Statement.braces_eq_nil placed]
    exact ih depth
  | whileLoop _ _ ihBody ihRest | forLoop _ _ _ ihBody ihRest | function _ _ ihBody ihRest =>
    have hbody := ihBody (depth + 1)
    have hrest := ihRest depth
    simp_all [Part.startDepth, Statement.braces, Script.depthAfter, depthAfter_append]
  | branch _ _ _ ihBody ihAlternatives ihRest =>
    have hbody := ihBody (depth + 1)
    have halternatives := ihAlternatives depth
    have hrest := ihRest depth
    simp_all [Part.startDepth, Statement.braces, Script.depthAfter, depthAfter_append]
  | ending => rfl
  | otherwise _ ihBody =>
    have hbody := ihBody (depth + 1)
    simp_all [Part.startDepth, Statement.braces, Script.depthAfter, depthAfter_append]
  | elseIf _ _ ihBody ihAlternatives =>
    have hbody := ihBody (depth + 1)
    have halternatives := ihAlternatives depth
    simp_all [Part.startDepth, Statement.braces, Script.depthAfter, depthAfter_append]

/-- The braces of a program match. -/
theorem IsProgram.depthAfter {S : List Statement} (h : IsProgram S) :
    Script.depthAfter 0 (S.flatMap Statement.braces) = some 0 := by
  obtain ⟨name, body, rfl, hbody⟩ := h
  have hbraces : Script.depthAfter 0 (body.flatMap Statement.braces) = some 0 := hbody.depthAfter 0
  simpa [Statement.braces] using hbraces

end Validation

/-! ## Lines of a program -/

/-- The script of a line has the braces of its statement and no others, and leaves no string literal
    and no comment open but one up to the end of the line. -/
def WritesItsBraces (line : Line) : Prop :=
  braces? (Translation.scriptLine line) = some (Statement.classify line.trimmed).braces

instance (line : Line) : Decidable (WritesItsBraces line) :=
  inferInstanceAs (Decidable (_ = _))

section

variable {line : Line}

/-- A trivial line is blank or a comment. -/
theorem classify_of_isTrivial (h : line.isTrivial = true) :
    Statement.classify line.trimmed = .blank ∨
      ∃ note, Statement.classify line.trimmed = .comment note := by
  -- the line is trimmed once more when it is classified, which keeps its first character
  unfold Line.isTrivial at h
  unfold Statement.classify
  split at h
  · rename_i hnil
    exact .inl (by rw [hnil]; rfl)
  · rename_i c note hcons
    obtain rfl := of_decide_eq_true h
    refine .inr ?_
    cases hend : Text.trimEnd ('#' :: note) with
    | nil =>
      rw [Text.trimEnd, List.reverse_eq_nil_iff, List.dropWhile_eq_nil_iff] at hend
      exact absurd (hend '#' (by simp)) (by decide)
    | cons d r =>
      obtain ⟨rfl, -⟩ := List.cons_prefix_cons.1 (hend ▸ Text.trimEnd_isPrefix ('#' :: note))
      have htrim : Text.trim ('#' :: note) = '#' :: r := hend
      rw [hcons, htrim]
      exact ⟨_, rfl⟩

theorem isPlain_of_isBlank {c : Char} (h : Text.isBlank c = true) : isPlain c = true := by
  simp only [isPlain, List.mem_cons, List.not_mem_nil, or_false, not_or, decide_eq_true_eq]
  refine ⟨?_, ?_, ?_, ?_, ?_⟩
  all_goals
    rintro rfl
    cases h

/-- Blank lines and comments are written without braces. -/
theorem writesItsBraces_of_isTrivial (hline : '\n' ∉ line.raw) (h : line.isTrivial = true) :
    WritesItsBraces line := by
  have hscript := Translation.newline_not_mem_scriptLine hline
  unfold WritesItsBraces
  unfold Translation.scriptLine at hscript ⊢
  rcases classify_of_isTrivial h with hblank | ⟨note, hcomment⟩
  · rw [hblank]
    rfl
  -- a comment is written behind two slashes
  · have hnote : ∃ t, Translation.statement line.trimmed (.comment note) = '/' :: '/' :: t := by
      simp only [Translation.statement]
      split
      · exact ⟨[], rfl⟩
      · exact ⟨' ' :: note, rfl⟩
    obtain ⟨t, ht⟩ := hnote
    rw [hcomment, ht] at hscript ⊢
    have hplain : line.leading.all isPlain = true :=
      List.all_eq_true.2 fun c hc => isPlain_of_isBlank (Text.isBlank_of_mem_leadingBlanks hc)
    have hnewline : '\n' ∉ t := fun ht => hscript (by simp [ht])
    rw [if_neg (by simp), braces?, bracesFrom_append_of_isPlain hplain]
    exact bracesFrom_comment hnewline

end

/-- The lines of a source are written with the braces of its statements. -/
theorem behind_lines {lines : List Line} (hlines : ∀ line ∈ lines, '\n' ∉ line.raw)
    (hbraces : ∀ line ∈ lines, WritesItsBraces line) {depth depth' : Nat}
    (hdepth : depthAfter depth
      (lines.flatMap fun line => (Statement.classify line.trimmed).braces) = some depth') (t : Text) :
    behind depth 0 (lines.flatMap (fun line => Translation.scriptLine line ++ ['\n']) ++ t)
      = behind depth' 0 t := by
  induction lines generalizing depth with
  | nil =>
    obtain rfl := Option.some.inj hdepth
    rfl
  | cons line lines ih =>
    rw [List.forall_mem_cons] at hlines hbraces
    rw [List.flatMap_cons, depthAfter_append, Option.bind_eq_some_iff] at hdepth
    obtain ⟨between, hline, hothers⟩ := hdepth
    rw [← ih hlines.2 hbraces.2 hothers, List.flatMap_cons]
    simp only [List.append_assoc, List.singleton_append]
    exact behind_line hbraces.1 (Nat.zero_le _) hline
      (Translation.newline_not_mem_scriptLine hlines.1) _

/-- Trivial lines add no statements and no braces. -/
theorem flatMap_braces_statements {lines : List Line} :
    (statements lines).flatMap Statement.braces
      = lines.flatMap fun line => (Statement.classify line.trimmed).braces := by
  induction lines with
  | nil => rfl
  | cons line lines ih =>
    rw [List.flatMap_cons, ← ih, statements, List.filter_cons]
    split
    · rfl
    · rename_i h
      have htrivial : line.isTrivial = true := by simpa using h
      have hnone : (Statement.classify line.trimmed).braces = [] := by
        rcases classify_of_isTrivial htrivial with hblank | ⟨note, hcomment⟩
        · rw [hblank]; rfl
        · rw [hcomment]; rfl
      rw [hnone]
      rfl

/-! ## The function around a program -/

/-- A script is inside of the function around it if its braces match and it has them to itself: the
    brace that closes the function is the last one. -/
theorem behind_translate {source : Text} (hvalid : hasErrors (validate source) = false)
    (hbraces : ∀ line ∈ Source.lines source, line.isTrivial = false → WritesItsBraces line) :
    behind 0 0 ((translate source).code ++ ['\n', '\x7d']) = some [] := by
  have hprogram := (hasErrors_findings_eq_false_iff (Source.lines source)).1 hvalid
  have hlines : Source.lines source ≠ [] := lines_ne_nil_of_hasErrors_findings hvalid
  have hraw : ∀ line ∈ Source.lines source, '\n' ∉ line.raw :=
    fun line hline => Source.newline_not_mem_raw hline
  have hall : ∀ line ∈ Source.lines source, WritesItsBraces line := by
    intro line hline
    by_cases htrivial : line.isTrivial = true
    · exact writesItsBraces_of_isTrivial (hraw line hline) htrivial
    · exact hbraces line hline (by simpa using htrivial)
  -- the blocks of the statements are closed at the end, and trivial lines open none
  have hdepth := hprogram.depthAfter
  rw [flatMap_braces_statements] at hdepth
  have hcode : (translate source).code ++ ['\n', '\x7d'] = (Source.lines source).flatMap
      (fun line => Translation.scriptLine line ++ ['\n']) ++ ['\x7d'] := by
    have hjoin := Text.join_append_sep ['\n'] (by simpa using hlines :
      (Source.lines source).map Translation.scriptLine ≠ [])
    rw [List.flatMap_map] at hjoin
    rw [← hjoin, List.append_assoc]
    rfl
  rw [hcode, behind_lines hraw hall hdepth, behind_closing_zero]

/-- A program without validation errors is inside of the function around it, if every line is written
    with the braces of its statement and no others: what is run is that function and nothing else. -/
theorem wrapper_holds_program {source : Text} (hvalid : hasErrors (validate source) = false)
    (hbraces : ∀ line ∈ Source.lines source, line.isTrivial = false → WritesItsBraces line)
    {program : Program}
    (hparse : Program.parse (Translation.wrapped (translate source).code) = .ok program) :
    ∃ place namePlace body, program =
      [.function place entryPoint namePlace [text "print", text "input"] true body] := by
  obtain ⟨place, namePlace, body, others, rest, rfl, hbehind, hothers⟩ := Program.parse_wrapped hparse
  rw [behind_translate hvalid hbraces] at hbehind
  obtain rfl := Option.some.inj hbehind
  obtain rfl := hothers.2 rfl
  exact ⟨place, namePlace, body, rfl⟩

namespace Outline

/-- The braces of an outline are those of its lines. -/
theorem writesItsBraces {indent : Nat → Nat} {o : Outline}
    (h : ∀ line ∈ o.lines indent, braces? (scriptLine line) = some line.2.statement.braces) :
    ∀ line ∈ Source.lines (o.source indent), WritesItsBraces line := by
  intro line hline
  have hraw : line.raw ∈ (Source.lines (o.source indent)).map Line.raw :=
    List.mem_map_of_mem hline
  rw [source_eq, map_raw_lines (o.lines_ne_nil indent)] at hraw
  obtain ⟨entry, hentry, heq⟩ := List.mem_map.1 hraw
  unfold WritesItsBraces
  rw [Translation.scriptLine_eq_emission, Line.trimmed, ← heq, emission_sourceLine, trim_sourceLine,
    entry.2.classify_source]
  exact h entry hentry

/-- A loop that prints a brace. -/
def printingBrace : Outline :=
  .whileLoop (.single (.bound (.name .i)))
    (.simple (.print [.quoted ⟨['\x7d'], by simp⟩]) .nil) .nil

end Outline

/-- A brace in a string literal does not close anything. -/
theorem wrapper_holds_program_printing_brace :
    hasErrors (validate (Outline.printingBrace.source fun _ => 0)) = false ∧
      (∀ line ∈ Source.lines (Outline.printingBrace.source fun _ => 0),
        line.isTrivial = false → WritesItsBraces line) ∧
      ∃ program place namePlace body,
        Program.parse (Translation.wrapped (translate (Outline.printingBrace.source fun _ => 0)).code)
          = .ok program ∧
        program = [.function place entryPoint namePlace [text "print", text "input"] true body] := by
  have hplaced : Outline.printingBrace.IsPlaced [] := ⟨⟨trivial, trivial⟩, trivial⟩
  have hvalid := Outline.hasErrors_source (fun _ => 0) hplaced
  have hbraces : ∀ line ∈ Source.lines (Outline.printingBrace.source fun _ => 0),
      WritesItsBraces line := by
    refine Outline.writesItsBraces ?_
    decide
  obtain ⟨program, hparse, -⟩ := Outline.parse_wrapped (fun _ => 0) hplaced
  obtain ⟨place, namePlace, body, hprogram⟩ :=
    wrapper_holds_program hvalid (fun line hline _ => hbraces line hline) hparse
  exact ⟨hvalid, fun line hline _ => hbraces line hline, program, place, namePlace, body, hparse,
    hprogram⟩

/-! ## A program that leaves the function -/

/-- A program whose only operand closes a block and opens another one. -/
def escaping : Text := text "Algorithm A\nx = 1; \x7d \x7b\nEndAlgorithm"

section

open Expression Statement

/-- The operand of the program. -/
private def escape : Text := text "1; \x7d \x7b"

private theorem tokens_escape : tokens escape
    = [.sign '1', .sign ';', .sign ' ', .sign '\x7d', .sign ' ', .sign '\x7b'] := by
  simp [escape, text, tokens, isQuote, isWordStart, Text.isAlphabetic]

private theorem tokens_target : tokens ['x'] = [.word ['x']] := by
  simp [tokens, isQuote, isWordStart, Text.isAlphabetic]

private theorem classify_escape :
    classify (text "x = " ++ escape) = .assignment ['x'] .plain (.expression escape) := by
  have hkeyword : keyword? (text "x = " ++ escape) = none := by decide
  have hassignment : assignment? (text "x = " ++ escape) = some (['x'], .plain, ' ' :: escape) := by
    decide
  have hvalue : initializer (' ' :: escape) = .expression escape := by decide
  have hbalanced : ∀ t ∈ [['x'], escape], imbalance? t = none := by
    simp only [List.forall_mem_cons, imbalance?, tokens_escape, tokens_target]
    decide
  rw [Outline.classify_of_isTrimmed (by decide) (by decide), hkeyword]
  simp only [withoutKeyword, hassignment, hvalue]
  exact Outline.ifBalanced_eq hbalanced _

/-- The statements that the lines say. -/
private theorem classify_escaping : (Source.lines escaping).map (fun line => classify line.trimmed)
    = [.header (text "A"), .assignment ['x'] .plain (.expression escape), .footer] := by
  have htrimmed : (Source.lines escaping).map Line.trimmed
      = [text "Algorithm A", text "x = " ++ escape, text "EndAlgorithm"] := by decide
  have hheader : classify (text "Algorithm A") = .header (text "A") :=
    Outline.Entry.header.classify_source
  have hfooter : classify (text "EndAlgorithm") = .footer := Outline.Entry.footer.classify_source
  rw [show (fun line : Line => classify line.trimmed) = classify ∘ Line.trimmed from rfl,
    ← List.map_map, htrimmed]
  simp only [List.map_cons, List.map_nil, hheader, classify_escape, hfooter]

private theorem statements_escaping : statements (Source.lines escaping)
    = [.header (text "A"), .assignment ['x'] .plain (.expression escape), .footer] := by
  have hall : (Source.lines escaping).filter (fun line => !line.isTrivial) = Source.lines escaping := by
    decide
  rw [statements, hall, classify_escaping]

private theorem code_escaping : (translate escaping).code
    = text "// Algorithm A\nx = " ++ escape ++ text ";\n// EndAlgorithm" := by
  have htarget : Translation.value ['x'] = ['x'] := by
    rw [Translation.value, rewrite, show Text.trim ['x'] = ['x'] from rfl, tokens_target]
    decide
  have hvalue : Translation.value escape = escape := by
    rw [Translation.value, rewrite, show Text.trim escape = escape from by decide, tokens_escape]
    decide
  have hlines : Source.lines escaping = [⟨1, text "Algorithm A"⟩, ⟨2, text "x = " ++ escape⟩,
      ⟨3, text "EndAlgorithm"⟩] := by decide
  have hclassify := classify_escaping
  rw [hlines] at hclassify
  simp only [List.map_cons, List.map_nil, List.cons.injEq] at hclassify
  rw [translate, hlines]
  simp only [List.map_cons, List.map_nil, Translation.scriptLine, hclassify, Translation.statement,
    htarget, hvalue]
  decide

end

/-- The operand closes the function, and what it opens is a block behind the function. -/
theorem escaping_leaves_wrapper :
    hasErrors (validate escaping) = false ∧
      ∃ program, Program.parse (Translation.wrapped (translate escaping).code) = .ok program ∧
        ∃ first second, program = [first, second] := by
  have hprogram : IsProgram (statements (Source.lines escaping)) := by
    rw [statements_escaping]
    exact ⟨text "A", [_], rfl, .simple trivial .nil⟩
  have hlength : (Program.parse (Translation.wrapped (text "// Algorithm A\nx = " ++ escape ++
      text ";\n// EndAlgorithm"))).toOption.map List.length = some 2 := by decide
  refine ⟨(hasErrors_findings_eq_false_iff (Source.lines escaping)).2 hprogram, ?_⟩
  rw [code_escaping]
  cases hparse : Program.parse (Translation.wrapped (text "// Algorithm A\nx = " ++ escape ++
      text ";\n// EndAlgorithm")) with
  | error fault =>
    rw [hparse] at hlength
    cases hlength
  | ok program =>
    rw [hparse] at hlength
    exact ⟨program, rfl, List.length_eq_two.1 (Option.some.inj hlength)⟩

end Pseudocode
