import Pseudocode.Proofs.OutlinePhrases
import Pseudocode.Proofs.SentenceReading

/-!
# Reading the script of an outline

The script of every line is read as what the line says, given how the blocks inside of it are read.
`below` is the text of the remaining lines. By induction on the tree, the lines of an outline are
read as its commands, one sentence for each statement, whatever the indentation is and whatever
follows the brace that ends the block.

The tests and the updates of counting loops are the translated ones, which a misread step changes.
-/

namespace Pseudocode

open Script Reader Grammar Validation

namespace Outline

section

variable {fuel depth room : Nat} {self : Reader Sentence} {t : Text} {inLoop : Bool}

/-! ## Statements without a block -/

/-- No name is a word of a sentence. -/
theorem not_mem_sentenceWords {w : Text} (hw : IsIdentifier w) : w ∉ sentenceWords.flatten := by
  have hkeywords : ∀ w ∈ sentenceWords.flatten, w ∈ Token.keywords := by decide
  exact fun h => hw.unreserved (hkeywords w h)

/-- A phrase that begins with a name is a sentence. -/
theorem reads_name_sentence {w r : Text} {e : Expression} (hw : IsIdentifier w)
    (hr : ∀ t, EndsWord (r ++ t)) (h : ReadsPhrase (expression fuel) room (w ++ r) e)
    (hroom : room ≤ Program.maxDepth) :
    Reads (sentence fuel self) (w ++ r ++ ';' :: t)
      (fun s => Statement.Means inLoop s (.expression e)) (skip t) := by
  refine h.reads_sentence hroom ?_ ?_
  · obtain ⟨c, s, rfl, hstart⟩ := hw.start
    rintro _ ⟨⟩ hsign
    fin_cases hsign <;> exact absurd hstart (by decide)
  · rw [List.append_assoc, hw.wordStart (hr _)]
    exact not_mem_sentenceWords hw

theorem reads_call_sentence {β : Type} {w : Text} {operands : List β} {source : β → Text}
    {expression : β → Expression} (hw : IsIdentifier w)
    (hoperands : ∀ b ∈ operands, ∀ depth,
      ReadsPhrase (phrase fuel (depth + 1)) 12 (source b) (expression b))
    (hfuel : operands.length + 2 ≤ fuel) :
    Reads (sentence fuel self)
      (w ++ '(' :: (Text.join (text ", ") (operands.map source) ++ [')']) ++ ';' :: t)
      (fun s => Statement.Means inLoop s (.expression
        (.call nowhere (.identifier nowhere w) (operands.map expression)))) (skip t) := by
  obtain ⟨depth, rfl⟩ : ∃ n, fuel = n + 2 := ⟨fuel - 2, by omega⟩
  have hcall : ReadsPhrase (Grammar.expression (depth + 2)) 24
      (w ++ '(' :: (Text.join (text ", ") (operands.map source) ++ [')']))
      (.call nowhere (.identifier nowhere w) (operands.map expression)) :=
    reads_call hw (fun b hb => hoperands b hb depth) (by omega)
  refine reads_name_sentence hw (fun t => ?_) hcall (by decide)
  rintro _ ⟨⟩
  rfl

/-- The script function that shows texts. -/
theorem print_isIdentifier : IsIdentifier (text "print") :=
  ⟨⟨'p', _, rfl, rfl⟩, List.all_eq_true.1 (by decide), by decide⟩

theorem length_list_le (operands : List Operand) : operands.length ≤ (list operands).length := by
  induction operands with
  | nil => exact Nat.zero_le _
  | cons o operands ih =>
    obtain ⟨c, r, hcons, -⟩ := o.source_cons
    cases operands with
    | nil =>
      rw [list_singleton, hcons]
      simp
    | cons o' operands =>
      rw [list_cons_cons]
      simp only [List.length_append, List.length_cons] at ih ⊢
      rw [hcons]
      simp only [List.length_cons]
      omega

theorem Simple.skip_script (s : Simple) (t : Text) : skip (s.script ++ t) = s.script ++ t := by
  cases s with
  | print operands => exact skip_cons_of_token rfl (by decide) _
  | assign target value =>
    simp only [script, List.append_assoc]
    exact target.isIdentifier.skip_append _
  | call callee operands =>
    simp only [script, List.append_assoc]
    exact callee.isIdentifier.skip_append _
  | returning value => cases value <;> exact skip_cons_of_token rfl (by decide) _
  | breaking => exact skip_cons_of_token rfl (by decide) _
  | continuing => exact skip_cons_of_token rfl (by decide) _

/-- A statement without a block is read as what it says. -/
theorem Simple.reads (s : Simple) {around : List Enclosing} (hplaced : s.MayStand around)
    (hloop : InLoop around → inLoop = true) (hfuel : s.script.length ≤ fuel) :
    Reads (sentence fuel self) (s.script ++ t) (fun x => Statement.Means inLoop x s.command)
      (skip t) := by
  -- each text is brought into the form that the lemma about its phrase has
  cases s with
  | print operands =>
    have hcount := length_list_le operands
    have htext : (print operands).script ++ t
        = text "print" ++ '(' :: (list operands ++ [')']) ++ ';' :: t := by
      simp [script, text]
    have hlength : (text "print(").length = 6 := rfl
    simp only [script, List.length_append] at hfuel
    rw [htext]
    exact reads_call_sentence print_isIdentifier (fun o _ _ => o.reads) (by omega)
  | call callee operands =>
    have hcount := length_list_le operands
    have htext : (call callee operands).script ++ t
        = callee.chars ++ '(' :: (list operands ++ [')']) ++ ';' :: t := by
      simp [script]
    simp only [script, List.length_append, List.length_cons] at hfuel
    rw [htext]
    exact reads_call_sentence callee.isIdentifier (fun o _ _ => o.reads) (by omega)
  | assign target value =>
    have hlength : (text " = ").length = 3 := rfl
    simp only [script, List.length_append] at hfuel
    obtain ⟨depth, rfl⟩ : ∃ n, fuel = n + 2 := ⟨fuel - 2, by omega⟩
    have hassign : ReadsPhrase (expression (depth + 2)) 24
        (target.chars ++ ' ' :: (AssignmentOperator.plain.sign ++ ' ' :: value.source))
        (.assign nowhere .plain target.expression value.expression) :=
      target.reads_assignment .plain value.reads (Nat.le_refl 12)
    have htext : (assign target value).script ++ t = target.chars ++
        ' ' :: (AssignmentOperator.plain.sign ++ ' ' :: value.source) ++ ';' :: t := by
      simp [script, text, AssignmentOperator.sign]
    rw [htext]
    refine reads_name_sentence target.isIdentifier (fun t => ?_) hassign (by decide)
    rintro _ ⟨⟩
    rfl
  | returning value =>
    cases value with
    | none => exact reads_returning
    | some value =>
      have hlength : (text "return ").length = 7 := rfl
      simp only [script, List.length_append] at hfuel
      obtain ⟨depth, rfl⟩ : ∃ n, fuel = n + 1 := ⟨fuel - 1, by omega⟩
      have hvalue : ReadsPhrase (expression (depth + 1)) 12 value.source value.expression :=
        value.reads
      have htext : (returning (some value)).script ++ t
          = text "return" ++ ' ' :: (value.source ++ ';' :: t) := by
        simp [script, text]
      rw [htext]
      exact hvalue.reads_returning (by decide)
  | breaking =>
    rw [hloop hplaced]
    exact reads_breaking
  | continuing =>
    rw [hloop hplaced]
    exact reads_continuing

end

/-! ## Statements with blocks -/

section

variable {fuel : Nat} {self : Reader Sentence} {t mid rest : Text} {inLoop : Bool}
  {cs : List Command}

/-- The line of a conditional loop and the block below it. -/
theorem Condition.reads_whileLoop (c : Condition) (hfuel : 0 < fuel)
    (hbody : Reads self ('\x7b' :: t) (IsBlock true cs) rest) :
    Reads (sentence fuel self) ((Entry.whileLoop c).script ++ t)
      (fun s => Statement.Means inLoop s (.whileLoop c.expression (.block cs))) rest := by
  obtain ⟨depth, rfl⟩ : ∃ n, fuel = n + 1 := ⟨fuel - 1, by omega⟩
  have hcondition : ReadsPhrase (Grammar.expression (depth + 1)) 24 c.script c.expression := c.reads hfuel
  have htext : (Entry.whileLoop c).script ++ t
      = text "while" ++ ' ' :: '(' :: (c.script ++ ')' :: ' ' :: '\x7b' :: t) := by
    simp [Entry.script, text]
  rw [← skip_cons_of_token (c := '\x7b') rfl (by decide), ← skip_space] at hbody
  rw [htext]
  exact hcondition.reads_whileLoop (by decide) hbody

/-- The line of a branch, the block below it and what follows that. -/
theorem Condition.reads_branch (c : Condition) {no : Option Command} (hfuel : 0 < fuel)
    (hyes : Reads self ('\x7b' :: t) (IsBlock inLoop cs) mid)
    (hno : Reads (optional (do Reader.part (word (text "else")); self)) mid
      (IsAlternative inLoop no) rest) :
    Reads (sentence fuel self) ((Entry.branch c).script ++ t)
      (fun s => Statement.Means inLoop s (.branch c.expression (.block cs) no)) rest := by
  obtain ⟨depth, rfl⟩ : ∃ n, fuel = n + 1 := ⟨fuel - 1, by omega⟩
  have hcondition : ReadsPhrase (Grammar.expression (depth + 1)) 24 c.script c.expression := c.reads hfuel
  have htext : (Entry.branch c).script ++ t
      = text "if" ++ ' ' :: '(' :: (c.script ++ ')' :: ' ' :: '\x7b' :: t) := by
    simp [Entry.script, text]
  rw [← skip_cons_of_token (c := '\x7b') rfl (by decide), ← skip_space] at hyes
  rw [htext]
  exact hcondition.reads_branch (by decide) hyes hno

/-- The line of a counting loop and the block below it. -/
theorem Counter.reads (c : Counter) (hfuel : 2 ≤ fuel)
    (hbody : Reads self ('\x7b' :: t) (IsBlock true cs) rest) :
    Reads (sentence fuel self) ((Entry.forLoop c).script ++ t)
      (fun s => Statement.Means inLoop s (.forLoop nowhere
        (some (.declaration .let [⟨nowhere, c.name.chars, some c.start.expression⟩]))
        (some c.translatedClauses.1) (some c.translatedClauses.2) (.block cs))) rest := by
  obtain ⟨depth, rfl⟩ : ∃ n, fuel = n + 2 := ⟨fuel - 2, by omega⟩
  obtain ⟨htest, hupdate⟩ : _ ∧ _ := c.reads_clauses (show 0 < depth + 2 by omega)
  have hstart : ReadsPhrase (expression (depth + 2)) 48 c.start.source c.start.expression :=
    (Operand.bound c.start).reads.mono (by decide)
  have htext : (Entry.forLoop c).script ++ t
      = text "for" ++ ' ' :: '(' :: (text "let" ++ ' ' :: (c.name.chars ++ ' ' :: '=' :: ' ' ::
        (c.start.source ++ ';' :: ' ' :: (c.scriptClauses.1 ++ ';' :: ' ' ::
          (c.scriptClauses.2 ++ ')' :: ' ' :: '\x7b' :: t))))) := by
    simp [Entry.script, script, text]
  -- the reader of the body starts behind the blank
  rw [← skip_cons_of_token (c := '\x7b') rfl (by decide), ← skip_space] at hbody
  rw [htext]
  have hblock := hbody.mono fun _ hblock => hblock.becomes
  exact (reads_forLoop c.name.isIdentifier hstart htest hupdate (by decide) hblock).mono
    fun _ hloop => hloop.means

/-- The line of a function and the block below it. -/
theorem reads_function_entry (name : Name) (parameters : List Name)
    (hbody : ReadsBlock self false (skip mid) cs ('\x7d' :: t)) (hcount : cs.length ≤ fuel)
    (hfuel : (Entry.function name parameters).script.length ≤ fuel) :
    Reads (sentence fuel self) ((Entry.function name parameters).script ++ mid)
      (fun s => Statement.Means inLoop s
        (.function nowhere name.chars nowhere (parameters.map Name.chars) false cs)) (skip t) := by
  have hparameters : ∀ p ∈ parameters.map Name.chars, IsIdentifier p := by
    intro p hp
    obtain ⟨n, -, rfl⟩ := List.mem_map.1 hp
    exact n.isIdentifier
  -- every name takes a character, so the fuel is enough for the list
  have hlength : (parameters.map Name.chars).length ≤ fuel := by
    have h := length_list_le (parameters.map fun n => .bound (.name n))
    rw [List.length_map] at h ⊢
    simp only [Entry.script, List.length_append, List.length_cons, join_names] at hfuel
    omega
  have htext : (Entry.function name parameters).script ++ mid = (if false then text "async" ++ [' ']
      else []) ++ text "function" ++ ' ' :: (name.chars ++
        '(' :: (Text.join (text ", ") (parameters.map Name.chars) ++ ')' :: ' ' :: '\x7b' :: mid)) := by
    simp [Entry.script, text]
  rw [htext]
  exact (reads_function false name.isIdentifier hparameters hlength hbody hcount).mono
    fun s hs => hs.means

end

/-! ## Layouts -/

/-- Lines with their indentation, each of them on a line of its own, and what follows them. -/
def layout : List (Nat × Entry) → Text → Text
  | [], rest => rest
  | (n, e) :: lines, rest => '\n' :: (List.replicate n ' ' ++ (e.script ++ layout lines rest))

theorem layout_append (lines lines' : List (Nat × Entry)) (rest : Text) :
    layout (lines ++ lines') rest = layout lines (layout lines' rest) := by
  induction lines with
  | nil => rfl
  | cons line lines ih =>
    rw [List.cons_append, layout, layout, ih]

theorem skip_layout_cons (n : Nat) (e : Entry) (lines : List (Nat × Entry)) (rest : Text) :
    skip (layout ((n, e) :: lines) rest) = skip (e.script ++ layout lines rest) := by
  rw [layout, skip_newline, skip_spaces]

/-- Every line but the comments at the top and at the bottom begins with a token. -/
theorem Entry.skip_script (e : Entry) (hheader : e ≠ .header) (hfooter : e ≠ .footer) (t : Text) :
    skip (e.script ++ t) = e.script ++ t := by
  cases e with
  | header => exact absurd rfl hheader
  | footer => exact absurd rfl hfooter
  | simple s => exact s.skip_script t
  | whileLoop c => exact skip_cons_of_token rfl (by decide) _
  | forLoop c => exact skip_cons_of_token rfl (by decide) _
  | function name parameters => exact skip_cons_of_token rfl (by decide) _
  | branch c => exact skip_cons_of_token rfl (by decide) _
  | elseIf c => exact skip_cons_of_token rfl (by decide) _
  | otherwise => exact skip_cons_of_token rfl (by decide) _
  | ending kind => exact skip_cons_of_token rfl (by decide) _

theorem skip_layout_line (n : Nat) (e : Entry) (hheader : e ≠ .header) (hfooter : e ≠ .footer)
    (lines : List (Nat × Entry)) (rest : Text) :
    skip (layout ((n, e) :: lines) rest) = e.script ++ layout lines rest := by
  rw [skip_layout_cons, e.skip_script hheader hfooter]

/-- No layout is shorter than what follows it, nor than the number of its lines. -/
theorem length_layout (lines : List (Nat × Entry)) (rest : Text) :
    lines.length + rest.length ≤ (layout lines rest).length := by
  induction lines with
  | nil => simp [layout]
  | cons line lines ih =>
    simp only [layout, List.length_cons, List.length_append]
    omega

/-- The fuel and the depth are enough for the lines. -/
structure Fits (fuel depth : Nat) (lines : List (Nat × Entry)) (rest : Text) : Prop where
  fuel_le : (layout lines rest).length ≤ fuel
  depth_le : 2 * lines.length ≤ depth

theorem Fits.mono {fuel depth depth' : Nat} {lines : List (Nat × Entry)} {rest : Text}
    (h : Fits fuel depth lines rest) (hle : depth ≤ depth') : Fits fuel depth' lines rest :=
  ⟨h.fuel_le, Nat.le_trans h.depth_le hle⟩

theorem Fits.cons {fuel depth n : Nat} {e : Entry} {lines : List (Nat × Entry)} {rest : Text}
    (h : Fits fuel depth ((n, e) :: lines) rest) :
    ∃ d, depth = d + 2 ∧ Fits fuel d lines rest ∧ e.script.length < fuel := by
  obtain ⟨hfuel, hdepth⟩ := h
  simp only [layout, List.length_cons, List.length_append] at hfuel hdepth
  exact ⟨depth - 2, by omega, ⟨by omega, by omega⟩, by omega⟩

theorem Fits.append {fuel depth : Nat} {lines lines' : List (Nat × Entry)} {rest : Text}
    (h : Fits fuel depth (lines ++ lines') rest) :
    Fits fuel depth lines (layout lines' rest) ∧ Fits fuel depth lines' rest := by
  obtain ⟨hfuel, hdepth⟩ := h
  rw [layout_append] at hfuel
  rw [List.length_append] at hdepth
  have hbehind := length_layout lines (layout lines' rest)
  exact ⟨⟨hfuel, by omega⟩, ⟨by omega, by omega⟩⟩

theorem Fits.block {fuel depth n m : Nat} {e f : Entry} {inside behind : List (Nat × Entry)}
    {rest : Text} (h : Fits fuel depth ((n, e) :: (inside ++ (m, f) :: behind)) rest) :
    ∃ d, depth = d + 2 ∧ Fits fuel d inside (layout ((m, f) :: behind) rest) ∧
      Fits fuel (d + 2) behind rest ∧ e.script.length < fuel := by
  obtain ⟨d, rfl, hall, hscript⟩ := h.cons
  obtain ⟨hinside, hclosing⟩ := hall.append
  obtain ⟨d', rfl, hbehind, -⟩ := hclosing.cons
  exact ⟨d' + 2, rfl, hinside, hbehind.mono (by omega), hscript⟩

/-- There is fuel for as many values as there are lines. -/
theorem Fits.length_le {fuel depth : Nat} {lines : List (Nat × Entry)} {rest : Text}
    (h : Fits fuel depth lines rest) : lines.length ≤ fuel := by
  have hlength := length_layout lines rest
  have hfuel := h.fuel_le
  omega

/-- The first line of a list of lines. -/
theorem exists_first {e : Entry} {es : List Entry} {lines : List (Nat × Entry)}
    (h : lines.map Prod.snd = e :: es) :
    ∃ n others, lines = (n, e) :: others ∧ others.map Prod.snd = es := by
  obtain ⟨⟨n, _⟩, others, rfl, rfl, hothers⟩ := List.map_eq_cons_iff.1 h
  exact ⟨n, others, rfl, hothers⟩

/-- The lines of a block, from the line that opens it to the one that closes it. -/
theorem exists_block {e f : Entry} {es fs : List Entry} {lines : List (Nat × Entry)}
    (h : lines.map Prod.snd = e :: (es ++ f :: fs)) :
    ∃ n inside m others, lines = (n, e) :: (inside ++ (m, f) :: others) ∧
      inside.map Prod.snd = es ∧ others.map Prod.snd = fs := by
  obtain ⟨n, behind, rfl, hbehind⟩ := exists_first h
  obtain ⟨inside, closing, rfl, hinside, hclosing⟩ := List.map_eq_append_iff.1 hbehind
  obtain ⟨m, others, rfl, hothers⟩ := exists_first hclosing
  exact ⟨n, inside, m, others, rfl, hinside, hothers⟩

/-- A brace that closes a block follows. -/
def EndsBlock (rest : Text) : Prop := ∃ r, skip rest = '\x7d' :: r

theorem skip_ending (n : Nat) (kind : BlockKind) (lines : List (Nat × Entry)) (rest : Text) :
    skip (layout ((n, .ending kind) :: lines) rest) = '\x7d' :: layout lines rest := by
  rw [skip_layout_cons]
  exact skip_cons_of_token rfl (by decide) _

/-! ## No alternative before its branch -/

theorem Name.wordStart_ne (n : Name) {t : Text} (ht : EndsWord t) : wordStart (n.chars ++ t) ≠ text "else" := by
  rw [n.isIdentifier.wordStart ht]
  intro heq
  exact n.notKeyword (by rw [heq]; decide)

theorem Simple.wordStart_ne (s : Simple) (t : Text) : wordStart (s.script ++ t) ≠ text "else" := by
  have hkeyword {w : Text} {c : Char} {r : Text} (hw : w.all Text.isIdentifierChar = true)
      (hc : Text.isIdentifierChar c = false) (hne : w ≠ text "else") :
      wordStart (w ++ c :: r) ≠ text "else" := by
    rw [wordStart_keyword hw hc]
    exact hne
  cases s with
  | print operands => exact hkeyword (w := text "print") (c := '(') (by decide) rfl (by decide)
  | assign target value =>
    simp only [script, List.append_assoc]
    refine target.wordStart_ne ?_
    rintro _ ⟨⟩
    rfl
  | call callee operands =>
    simp only [script, List.append_assoc]
    refine callee.wordStart_ne ?_
    rintro _ ⟨⟩
    rfl
  | returning value =>
    cases value with
    | none => exact hkeyword (w := text "return") (c := ';') (by decide) rfl (by decide)
    | some value => exact hkeyword (w := text "return") (c := ' ') (by decide) rfl (by decide)
  | breaking => exact hkeyword (w := text "break") (c := ';') (by decide) rfl (by decide)
  | continuing => exact hkeyword (w := text "continue") (c := ';') (by decide) rfl (by decide)

end Outline

open Outline

/-- No statement begins with `else`, so a branch has no alternatives but its own. -/
theorem Outline.wordStart_layout_ne (o : Outline) {lines : List (Nat × Entry)} {rest : Text}
    (hlines : lines.map Prod.snd = o.entries) (hrest : EndsBlock rest) :
    wordStart (skip (layout lines rest)) ≠ text "else" := by
  have hkeyword {n : Nat} {e : Entry} {others : List (Nat × Entry)} {w r : Text}
      (hw : w.all Text.isIdentifierChar = true) (hne : w ≠ text "else")
      (hscript : skip (e.script ++ layout others rest) = w ++ ' ' :: r) :
      wordStart (skip (layout ((n, e) :: others) rest)) ≠ text "else" := by
    rw [skip_layout_cons, hscript, wordStart_keyword hw rfl]
    exact hne
  -- every entry begins with a keyword of its own, or with a simple statement
  cases o with
  | nil =>
    obtain rfl : lines = [] := by simpa [entries] using hlines
    obtain ⟨r, hr⟩ := hrest
    rw [layout, hr]
    show [] ≠ text "else"
    decide
  | simple s others =>
    obtain ⟨n, others, rfl, -⟩ := exists_first hlines
    rw [skip_layout_cons]
    show wordStart (skip (s.script ++ _)) ≠ _
    rw [s.skip_script]
    exact s.wordStart_ne _
  | whileLoop c body others =>
    obtain ⟨n, others, rfl, -⟩ := exists_first hlines
    exact hkeyword (w := text "while") (by decide) (by decide) (skip_cons_of_token rfl (by decide) _)
  | forLoop c body others =>
    obtain ⟨n, others, rfl, -⟩ := exists_first hlines
    exact hkeyword (w := text "for") (by decide) (by decide) (skip_cons_of_token rfl (by decide) _)
  | function name parameters body others =>
    obtain ⟨n, others, rfl, -⟩ := exists_first hlines
    exact hkeyword (w := text "function") (by decide) (by decide)
      (skip_cons_of_token rfl (by decide) _)
  | branch c yes no others =>
    obtain ⟨n, others, rfl, -⟩ := exists_first hlines
    exact hkeyword (w := text "if") (by decide) (by decide) (skip_cons_of_token rfl (by decide) _)

theorem Outline.length_commandsWith_le (clauses : Counter → Expression × Expression) :
    ∀ o : Outline, (o.commandsWith clauses).length ≤ o.entries.length
  | .nil => Nat.zero_le _
  | .simple _ others => by
    have h := length_commandsWith_le clauses others
    simp only [commandsWith, entries, List.length_cons]
    omega
  | .whileLoop _ _ others => by
    have h := length_commandsWith_le clauses others
    simp only [commandsWith, entries, List.length_cons, List.length_append]
    omega
  | .forLoop _ _ others => by
    have h := length_commandsWith_le clauses others
    simp only [commandsWith, entries, List.length_cons, List.length_append]
    omega
  | .function _ _ _ others => by
    have h := length_commandsWith_le clauses others
    simp only [commandsWith, entries, List.length_cons, List.length_append]
    omega
  | .branch _ _ _ others => by
    have h := length_commandsWith_le clauses others
    simp only [commandsWith, entries, List.length_cons, List.length_append]
    omega

/-- There is fuel for the commands of an outline whose lines fit. -/
theorem Outline.length_commandsWith_le_fuel (o : Outline) {fuel depth : Nat}
    {lines : List (Nat × Entry)} {rest : Text} (hlines : lines.map Prod.snd = o.entries)
    (hfits : Fits fuel depth lines rest) (clauses : Counter → Expression × Expression) :
    (o.commandsWith clauses).length ≤ fuel := by
  have hcommands := o.length_commandsWith_le clauses
  rw [← hlines, List.length_map] at hcommands
  exact Nat.le_trans hcommands hfits.length_le

/-! ## Trees -/

mutual

/-- The lines of an outline are read as its commands, up to the brace that ends the block. -/
theorem Outline.reads (fuel : Nat) : ∀ (o : Outline) {around : List Enclosing} {inLoop : Bool}
    {depth : Nat} {lines : List (Nat × Entry)} {rest : Text}, lines.map Prod.snd = o.entries →
    o.IsPlaced around → (InLoop around → inLoop = true) → EndsBlock rest →
    Fits fuel depth lines rest →
    ReadsBlock (statement fuel depth) inLoop (skip (layout lines rest))
      (o.commandsWith Counter.translatedClauses) (skip rest)
  | .nil, _, _, depth, lines, _, hlines, _, _, hrest, _ => by
    obtain rfl : lines = [] := by simpa [entries] using hlines
    obtain ⟨r, hr⟩ := hrest
    refine .nil ?_
    rw [layout, hr]
    exact fails_statement_brace r depth
  | .simple s others, _, _, _, _, _, hlines, hplaced, hloop, hrest, hfits => by
    obtain ⟨n, behind, rfl, hbehind⟩ := exists_first hlines
    obtain ⟨depth, rfl, hfits, hscript⟩ := hfits.cons
    have hothers := others.reads fuel hbehind hplaced.2 hloop hrest
      (hfits.mono (Nat.le_add_right depth 2))
    rw [skip_layout_line n (.simple s) nofun nofun]
    refine .cons ?_ hothers
    exact s.reads hplaced.1 hloop (Nat.le_of_lt hscript)
  | .whileLoop c body others, _, _, _, _, rest, hlines, hplaced, hloop, hrest, hfits => by
    obtain ⟨n, inside, m, behind, rfl, hinside, hbehind⟩ := exists_block hlines
    obtain ⟨depth, rfl, hfits, hfitsOthers, hscript⟩ := hfits.block
    have hbody := body.reads fuel hinside hplaced.1 (fun _ => rfl)
      ⟨_, skip_ending m .whileLoop behind rest⟩ hfits
    have hothers := others.reads fuel hbehind hplaced.2 hloop hrest hfitsOthers
    rw [skip_ending] at hbody
    have hblock := reads_block hbody (body.length_commandsWith_le_fuel hinside hfits _)
    rw [skip_layout_line n (.whileLoop c) nofun nofun, layout_append]
    refine .cons ?_ hothers
    exact c.reads_whileLoop (by omega) hblock
  | .forLoop c body others, _, _, _, _, rest, hlines, hplaced, hloop, hrest, hfits => by
    obtain ⟨n, inside, m, behind, rfl, hinside, hbehind⟩ := exists_block hlines
    obtain ⟨depth, rfl, hfits, hfitsOthers, hscript⟩ := hfits.block
    have hbody := body.reads fuel hinside hplaced.2.1 (fun _ => rfl)
      ⟨_, skip_ending m .forLoop behind rest⟩ hfits
    have hothers := others.reads fuel hbehind hplaced.2.2 hloop hrest hfitsOthers
    rw [skip_ending] at hbody
    have hblock := reads_block hbody (body.length_commandsWith_le_fuel hinside hfits _)
    rw [skip_layout_line n (.forLoop c) nofun nofun, layout_append]
    refine .cons ?_ hothers
    have hpos : 0 < (Entry.forLoop c).script.length := Nat.succ_pos _
    exact c.reads (by omega) hblock
  | .function name parameters body others, around, _, _, _, rest, hlines, hplaced, hloop, hrest, hfits => by
    obtain ⟨n, inside, m, behind, rfl, hinside, hbehind⟩ := exists_block hlines
    obtain ⟨depth, rfl, hfits, hfitsOthers, hscript⟩ := hfits.block
    have hinner : InLoop (.function :: around) → false = true := fun h =>
      absurd h (not_inLoop_function around)
    have hbody := body.reads fuel hinside hplaced.1 hinner
      ⟨_, skip_ending m .function behind rest⟩ (hfits.mono (Nat.le_succ _))
    have hothers := others.reads fuel hbehind hplaced.2 hloop hrest hfitsOthers
    rw [skip_ending] at hbody
    rw [skip_layout_line n (.function name parameters) nofun nofun, layout_append]
    refine .cons ?_ hothers
    exact reads_function_entry name parameters hbody
      (body.length_commandsWith_le_fuel hinside hfits _) (Nat.le_of_lt hscript)
  | .branch c yes no others, _, _, _, _, rest, hlines, hplaced, hloop, hrest, hfits => by
    obtain ⟨n, behind, rfl, hbehind⟩ := exists_first hlines
    obtain ⟨inside, behind, rfl, hinside, hbehind⟩ := List.map_eq_append_iff.1 hbehind
    obtain ⟨between, behind, rfl, hbetween, hbehind⟩ := List.map_eq_append_iff.1 hbehind
    obtain ⟨depth, rfl, hfits, hscript⟩ := hfits.cons
    -- what is enough for the whole is enough for both branches and for what follows them
    obtain ⟨hfitsYes, hfits'⟩ := hfits.append
    obtain ⟨hfitsNo, hfitsOthers⟩ := hfits'.append
    obtain ⟨after, hafter, hno⟩ := no.reads fuel hbetween hplaced.2.1 hloop
      (others.wordStart_layout_ne hbehind hrest) (hfitsNo.mono (Nat.le_succ _))
    have hyes := yes.reads fuel hinside hplaced.1
      (fun h => hloop (inLoop_branch h)) ⟨after, by rw [layout_append, hafter]⟩ hfitsYes
    have hothers := others.reads fuel hbehind hplaced.2.2 hloop hrest
      (hfitsOthers.mono (Nat.le_add_right depth 2))
    rw [layout_append, hafter] at hyes
    have hblock := reads_block hyes (yes.length_commandsWith_le_fuel hinside hfitsYes _)
    rw [skip_layout_line n (.branch c) nofun nofun, layout_append, layout_append]
    refine .cons ?_ hothers
    exact c.reads_branch (by omega) hblock hno

/-- Alternatives close the block before them and are read as what they say, up to the next
    statement. -/
theorem Alternatives.reads (fuel : Nat) : ∀ (a : Alternatives) {around : List Enclosing}
    {inLoop : Bool} {depth : Nat} {lines : List (Nat × Entry)} {rest : Text},
    lines.map Prod.snd = a.entries → a.IsPlaced around → (InLoop around → inLoop = true) →
    wordStart (skip rest) ≠ text "else" → Fits fuel depth lines rest →
    ∃ after, skip (layout lines rest) = '\x7d' :: after ∧
      Reads (optional (do Reader.part (word (text "else")); statement fuel depth)) (skip after)
        (IsAlternative inLoop (a.commandWith Counter.translatedClauses)) (skip rest)
  | .none, _, _, _, _, rest, hlines, _, _, hrest, _ => by
    obtain ⟨n, others, rfl, hothers⟩ := exists_first hlines
    obtain rfl : others = [] := by simpa using hothers
    exact ⟨rest, skip_ending n .branch [] rest, reads_no_alternative hrest⟩
  | .otherwise body, _, inLoop, _, _, rest, hlines, hplaced, hloop, _, hfits => by
    obtain ⟨n, inside, m, others, rfl, hinside, hothers⟩ := exists_block hlines
    obtain rfl : others = [] := by simpa using hothers
    obtain ⟨depth, rfl, hfits, -, -⟩ := hfits.block
    have hbody := body.reads fuel hinside hplaced (fun h => hloop (inLoop_branch h))
      ⟨_, skip_ending m .branch [] rest⟩ (hfits.mono (Nat.le_succ depth))
    rw [skip_ending] at hbody
    have hblock := reads_block hbody (body.length_commandsWith_le_fuel hinside hfits _)
    rw [← skip_cons_of_token (c := '\x7b') rfl (by decide)] at hblock
    rw [skip_layout_line n .otherwise nofun nofun, layout_append]
    refine ⟨_, rfl, ?_⟩
    exact reads_alternative (hblock.mono fun s hs => hs.means)
  | .elseIf c yes no, _, _, _, _, rest, hlines, hplaced, hloop, hrest, hfits => by
    obtain ⟨n, behind, rfl, hbehind⟩ := exists_first hlines
    obtain ⟨inside, behind, rfl, hinside, hbehind⟩ := List.map_eq_append_iff.1 hbehind
    obtain ⟨depth, rfl, hfits, hscript⟩ := hfits.cons
    obtain ⟨hfitsYes, hfitsNo⟩ := hfits.append
    obtain ⟨after, hafter, hno⟩ := no.reads fuel hbehind hplaced.2 hloop hrest
      (hfitsNo.mono (Nat.le_succ depth))
    have hyes := yes.reads fuel hinside hplaced.1
      (fun h => hloop (inLoop_branch h)) ⟨after, hafter⟩ hfitsYes
    rw [hafter] at hyes
    have hblock := reads_block hyes (yes.length_commandsWith_le_fuel hinside hfitsYes _)
    have hfuel : 0 < fuel := by omega
    have hbranch := c.reads_branch hfuel hblock hno
    rw [← Entry.skip_script (.branch c) nofun nofun] at hbranch
    rw [skip_layout_line n (.elseIf c) nofun nofun, layout_append]
    refine ⟨_, rfl, ?_⟩
    exact reads_alternative hbranch

end

end Pseudocode
