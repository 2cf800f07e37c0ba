import Pseudocode.Proofs.EventStream
import Pseudocode.Proofs.OutlineTranslation

/-!
# Printed strings

A program that prints lists of strings, each string written as a literal. Whatever the strings are,
every stage takes the literals for what they are: a line is read as a statement that prints them, its
script is read as a call with as many operands, and the run shows every list with single spaces
between its strings.

* `Printing.source`              the program
* `Execution.prints_strings`     it has no findings, and its run shows the lists, one after the other
-/

namespace Pseudocode

open Script Reader Grammar Validation

namespace Printing

/-! ## The program -/

/-- The line that prints strings. -/
def line (strings : List Text) : Text :=
  text "print " ++ Text.join (text ", ") (strings.map quote)

/-- The lines of a program that prints lists of strings. -/
def lines (title : Text) (lists : List (List Text)) : List Text :=
  (text "Algorithm " ++ title) :: (lists.map line ++ [text "EndAlgorithm"])

/-- A program that prints lists of strings, one list in a line. -/
def source (title : Text) (lists : List (List Text)) : Text :=
  Text.join ['\n'] (lines title lists)

theorem isItem_quotes (strings : List Text) : ∀ w ∈ strings.map quote, Expression.IsItem w :=
  List.forall_mem_map.2 fun value _ => Expression.isItem_quote value

theorem isTrimmed_quotes {strings : List Text} (h : strings ≠ []) :
    Text.IsTrimmed (Text.join (text ", ") (strings.map quote)) := by
  have hitems := isItem_quotes strings
  obtain ⟨value, values, rfl⟩ := List.exists_cons_of_ne_nil h
  exact Expression.isTrimmed_join hitems

theorem isTrimmed_line {strings : List Text} (h : strings ≠ []) : Text.IsTrimmed (line strings) := by
  have hword : Text.IsTrimmed (text "print") := by decide
  exact hword.append [' '] (isTrimmed_quotes h)

theorem isTrimmed_header {title : Text} (h : Text.IsTrimmed title) :
    Text.IsTrimmed (text "Algorithm " ++ title) := by
  have hword : Text.IsTrimmed (text "Algorithm") := by decide
  exact hword.append [' '] h

section

variable {title : Text} {lists : List (List Text)}

theorem isTrimmed_of_mem_lines (htitle : Text.IsTrimmed title) (hlists : ∀ strings ∈ lists, strings ≠ []) :
    ∀ w ∈ lines title lists, Text.IsTrimmed w := by
  rw [lines, List.forall_mem_cons, List.forall_mem_append, List.forall_mem_map,
    List.forall_mem_singleton]
  exact ⟨isTrimmed_header htitle, fun strings h => isTrimmed_line (hlists strings h), by decide⟩

theorem newline_not_mem_of_mem_lines (htitle : '\n' ∉ title) :
    ∀ w ∈ lines title lists, '\n' ∉ w := by
  rw [lines, List.forall_mem_cons, List.forall_mem_append, List.forall_mem_map,
    List.forall_mem_singleton]
  have hquotes (strings : List Text) := Expression.newline_not_mem_items (isItem_quotes strings)
  refine ⟨?_, fun strings _ => ?_, by decide⟩
  · simp [text, htitle]
  · have hword : '\n' ∉ text "print " := by decide
    simp [line, hword, hquotes strings]

/-! ## Statements -/

/-- A line that begins with the keyword of the header is one. -/
theorem classify_header (htitle : Text.IsTrimmed title) (hline : '\n' ∉ title) :
    Statement.classify (text "Algorithm " ++ title) = .header title := by
  have hheader : Statement.header? (' ' :: title) = some title := by
    rw [Statement.header?, Shape.someBlanks_space htitle, if_neg]
    simp [htitle.ne_nil, hline]
  rw [Outline.classify_of_isTrimmed (isTrimmed_header htitle) fun h => absurd h (by simp [text])]
  show Statement.withKeyword .algorithm _ (' ' :: title) = _
  simp only [Statement.withKeyword, hheader]

/-- The strings of a line are taken apart where they have been put together. -/
theorem classify_line {strings : List Text} (h : strings ≠ []) :
    Statement.classify (line strings) = .print (strings.map quote) := by
  have htrim : Text.trim (' ' :: Text.join (text ", ") (strings.map quote))
      = Text.join (text ", ") (strings.map quote) :=
    Text.trim_blanks_append [' '] (by simp; decide) (isTrimmed_quotes h)
  rw [Outline.classify_of_isTrimmed (isTrimmed_line h) fun h => absurd h (by simp [line, text])]
  show Statement.printOf (' ' :: Text.join (text ", ") (strings.map quote)) = _
  exact Outline.printOf_join rfl htrim (isItem_quotes strings)

/-! ## Findings -/

theorem trimmed_eq {l : Line} {w : Text} (hraw : l.raw = w) (hw : Text.IsTrimmed w) : l.trimmed = w := by
  rw [Line.trimmed, hraw, hw.trim]

theorem isTrivial_eq_false {l : Line} {w : Text} (hraw : l.raw = w) (hw : Text.IsTrimmed w)
    (hcomment : w.head? ≠ some '#') : l.isTrivial = false := by
  obtain ⟨c, r, rfl⟩ := List.exists_cons_of_ne_nil hw.ne_nil
  have hc : c ≠ '#' := fun h => hcomment (by rw [h]; rfl)
  simp [Line.isTrivial, trimmed_eq hraw hw, hc]

/-- Outside of all blocks and behind the header, a line that prints changes nothing. -/
theorem visit_line (all : List Line) {l : Line} {strings : List Text} (h : strings ≠ [])
    (hraw : l.raw = line strings) (header : Nat) :
    State.visit all ⟨[], [], true, some header, none⟩ l = ⟨[], [], true, some header, none⟩ := by
  have htrivial := isTrivial_eq_false hraw (isTrimmed_line h) fun h => absurd h (by simp [line, text])
  rw [State.visit, htrivial, trimmed_eq hraw (isTrimmed_line h), classify_line h]
  rfl

theorem foldl_visit_lines (all : List Line) (header : Nat) {ls : List Line} {lists : List (List Text)}
    (hlists : ∀ strings ∈ lists, strings ≠ []) (hraw : ls.map Line.raw = lists.map line) :
    ls.foldl (State.visit all) ⟨[], [], true, some header, none⟩
      = ⟨[], [], true, some header, none⟩ := by
  induction ls generalizing lists with
  | nil => rfl
  | cons l ls ih =>
    obtain ⟨strings, others, rfl, hline, hothers⟩ := List.map_eq_cons_iff.1 hraw.symm
    rw [List.foldl_cons, visit_line all (hlists strings (by simp)) hline.symm]
    exact ih (fun strings h => hlists strings (List.mem_cons_of_mem _ h)) hothers.symm

/-- The lines of the source are those that it is made of. -/
theorem map_raw_lines (htitle : Text.IsTrimmed title) (hline : '\n' ∉ title)
    (hlists : ∀ strings ∈ lists, strings ≠ []) :
    (Source.lines (source title lists)).map Line.raw = lines title lists :=
  Source.map_raw_lines_join (List.cons_ne_nil _ _) (newline_not_mem_of_mem_lines hline)
    fun w hw => (isTrimmed_of_mem_lines htitle hlists w hw).exists_concat

/-- The program has no findings. -/
theorem validate_source (htitle : Text.IsTrimmed title) (hline : '\n' ∉ title)
    (hlists : ∀ strings ∈ lists, strings ≠ []) : validate (source title lists) = [] := by
  have hraw := map_raw_lines htitle hline hlists
  rw [validate, findings]
  generalize hall : Source.lines (source title lists) = all at hraw ⊢
  -- the header, the lines that print, and the footer
  obtain ⟨header, behind, rfl, hheader, hbehind⟩ := List.map_eq_cons_iff.1 hraw
  obtain ⟨body, last, rfl, hbody, hlast⟩ := List.map_eq_append_iff.1 hbehind
  obtain ⟨footer, others, rfl, hfooter, hothers⟩ := List.map_eq_cons_iff.1 hlast
  obtain rfl := List.map_eq_nil_iff.1 hothers
  have hopened (all : List Line) :
      State.visit all .initial header = ⟨[], [], true, some header.number, none⟩ := by
    have htrivial := isTrivial_eq_false hheader (isTrimmed_header htitle)
      fun h => absurd h (by simp [text])
    rw [State.visit, htrivial, trimmed_eq hheader (isTrimmed_header htitle),
      classify_header htitle hline]
    rfl
  have hclosed (all : List Line) :
      State.visit all ⟨[], [], true, some header.number, none⟩ footer
        = ⟨[], [], true, some header.number, some footer.number⟩ := by
    have htrimmed : Text.IsTrimmed (text "EndAlgorithm") := by decide
    have hstatement : Statement.classify (text "EndAlgorithm") = .footer := rfl
    rw [State.visit, isTrivial_eq_false hfooter htrimmed (by decide), trimmed_eq hfooter htrimmed,
      hstatement]
    rfl
  rw [List.foldl_cons, hopened, List.foldl_append, foldl_visit_lines _ _ hlists hbody,
    List.foldl_cons, hclosed, List.foldl_nil]
  simp [State.finish]

/-! ## Script -/

/-- The script of the line that prints strings. -/
def script (strings : List Text) : Text :=
  text "print" ++ '(' :: (Text.join (text ", ") (strings.map quote) ++ [')']) ++ [';']

theorem value_quote (value : Text) : Translation.value (quote value) = quote value := by
  have hitem := Expression.isItem_quote value
  exact Expression.rewrite_eq hitem.isTrimmed (fun token h => (hitem.isInert token h).isKept) _

/-- What a line without white space around it is translated to. -/
theorem emission_of_isTrimmed {w s : Text} (hw : Text.IsTrimmed w)
    (hs : Translation.statement w (Statement.classify w) = s) (hne : s ≠ []) :
    Translation.emission w = s := by
  obtain ⟨c, r, hcons⟩ := List.exists_cons_of_ne_nil hw.ne_nil
  have hc := hw.start c (by rw [hcons]; rfl)
  have hblanks : Text.leadingBlanks w = [] := by
    rw [Text.leadingBlanks, hcons, List.takeWhile_cons_of_neg (by simp [hc])]
  have hshown : s.isEmpty = false := by simpa using hne
  simp only [Translation.emission, hw.trim, hs, hshown, hblanks, Bool.false_eq_true, ↓reduceIte,
    List.nil_append]

theorem emission_line {strings : List Text} (h : strings ≠ []) :
    Translation.emission (line strings) = script strings := by
  have hvalues : (strings.map quote).map Translation.value = strings.map quote := by
    rw [List.map_map]
    exact List.map_congr_left fun value _ => value_quote value
  refine emission_of_isTrimmed (isTrimmed_line h) ?_ (by simp [script, text])
  rw [classify_line h, Translation.statement, hvalues]
  simp [script, text]

/-- The script of the program: the lines that print, between two comments. -/
theorem code_translate_source (htitle : Text.IsTrimmed title) (hline : '\n' ∉ title)
    (hlists : ∀ strings ∈ lists, strings ≠ []) :
    (translate (source title lists)).code = Text.join ['\n']
      ((text "// Algorithm " ++ title) :: (lists.map script ++ [text "// EndAlgorithm"])) := by
  have hheader : Translation.emission (text "Algorithm " ++ title) = text "// Algorithm " ++ title := by
    refine emission_of_isTrimmed (isTrimmed_header htitle) ?_ (by simp [text])
    rw [classify_header htitle hline, Translation.statement]
  have hfooter : Translation.emission (text "EndAlgorithm") = text "// EndAlgorithm" := rfl
  have hbody : (lists.map line).map Translation.emission = lists.map script := by
    rw [List.map_map]
    exact List.map_congr_left fun strings h => emission_line (hlists strings h)
  have hne : lines title lists ≠ [] := List.cons_ne_nil _ _
  rw [source, Translation.code_translate_join hne (newline_not_mem_of_mem_lines hline)
    fun w hw => (isTrimmed_of_mem_lines htitle hlists w hw).exists_concat, lines, List.map_cons,
    List.map_append, hheader, hbody, List.map_singleton, hfooter]

/-- The lines that print are no more than their characters, and so are the strings of each. -/
theorem length_scripts (lists : List (List Text)) :
    lists.length ≤ ((lists.map script).flatMap (['\n'] ++ ·)).length ∧
      ∀ strings ∈ lists, strings.length ≤ ((lists.map script).flatMap (['\n'] ++ ·)).length := by
  induction lists with
  | nil => simp
  | cons strings lists ih =>
    have hcount : strings.length ≤ (script strings).length := by
      -- every literal takes a character at least
      have hquotes : (strings.map quote).length
          ≤ (Text.join (text ", ") (strings.map quote)).length :=
        Text.count_le_length_join fun w hw => (isItem_quotes strings w hw).isTrimmed.ne_nil
      rw [List.length_map] at hquotes
      simp only [script, List.length_append, List.length_cons]
      omega
    simp only [List.map_cons, List.flatMap_cons, List.length_append, List.length_cons,
      List.forall_mem_cons]
    refine ⟨by omega, by omega, fun others h => ?_⟩
    have hothers := ih.2 others h
    omega

/-- What the line that prints strings says in the script. -/
def command (strings : List Text) : Command :=
  .expression (.call nowhere (.identifier nowhere (text "print"))
    (strings.map fun value => .string nowhere value))

/-- The lines that print are read one by one. -/
theorem reads_lines {fuel depth : Nat} {rest : Text} (hrest : skip rest = ['\x7d'])
    (hfuel : ∀ strings ∈ lists, strings.length + 2 ≤ fuel) :
    ReadsBlock (statement fuel (depth + 1)) false
      (skip ((lists.map script).flatMap (['\n'] ++ ·) ++ rest)) (lists.map command) ['\x7d'] := by
  induction lists with
  | nil =>
    rw [List.map_nil, List.flatMap_nil, List.nil_append, hrest]
    exact .nil (fails_statement_brace [] _)
  | cons strings lists ih =>
    have hothers := ih fun strings h => hfuel strings (List.mem_cons_of_mem _ h)
    have htext : (['\n'] ++ script strings ++ (lists.map script).flatMap (['\n'] ++ ·)) ++ rest
        = '\n' :: (text "print" ++ '(' :: (Text.join (text ", ") (strings.map quote) ++ [')']) ++
          ';' :: ((lists.map script).flatMap (['\n'] ++ ·) ++ rest)) := by
      simp [script]
    rw [List.map_cons, List.map_cons, List.flatMap_cons, htext, skip_newline, List.append_assoc,
      Outline.print_isIdentifier.skip_append, ← List.append_assoc]
    exact .cons (Outline.reads_call_sentence Outline.print_isIdentifier
      (fun value _ _ => Outline.reads_quote value) (hfuel strings (by simp))) hothers

/-- What is run is one function, which prints the lists. -/
theorem parse_wrapped (htitle : Text.IsTrimmed title) (hline : '\n' ∉ title)
    (hlists : ∀ strings ∈ lists, strings ≠ []) :
    ∃ program, Program.parse (Translation.wrapped (translate (source title lists)).code) = .ok program ∧
      Command.unplacedAll program = [.function nowhere entryPoint nowhere
        [text "print", text "input"] true (lists.map command)] := by
  have hcode : (translate (source title lists)).code ++ ['\n', '\x7d']
      = '/' :: '/' :: (text " Algorithm " ++ title ++ ((lists.map script).flatMap (['\n'] ++ ·) ++
        '\n' :: (text "// EndAlgorithm" ++ ['\n', '\x7d']))) := by
    rw [code_translate_source htitle hline hlists, Text.join_cons, List.flatMap_append,
      List.flatMap_singleton]
    simp [text]
  have hopen : skip ((translate (source title lists)).code ++ ['\n', '\x7d'])
      = skip ((lists.map script).flatMap (['\n'] ++ ·) ++
        '\n' :: (text "// EndAlgorithm" ++ ['\n', '\x7d'])) := by
    have hnote : '\n' ∉ text " Algorithm " ++ title := by simp [text, hline]
    -- the comment of the header ends at the line feed before the first line behind it
    obtain ⟨t, ht⟩ : ∃ t, (lists.map script).flatMap (['\n'] ++ ·) ++
        '\n' :: (text "// EndAlgorithm" ++ ['\n', '\x7d']) = '\n' :: t := by
      cases lists <;> exact ⟨_, rfl⟩
    rw [hcode, ht, skip_comment hnote, skip_newline]
  obtain ⟨hcount, hlength⟩ := length_scripts lists
  have hcodeLength := congrArg List.length hcode
  simp only [List.length_append, List.length_cons] at hcodeLength
  have hblock (n : Nat) (hn : ((translate (source title lists)).code ++ ['\n', '\x7d']).length < n) :
      ReadsBlock (statement (n + 1) n) false
        (skip ((translate (source title lists)).code ++ ['\n', '\x7d'])) (lists.map command)
        ['\x7d'] ∧ (lists.map command).length ≤ n := by
    simp only [List.length_append, List.length_cons] at hn
    obtain ⟨depth, rfl⟩ : ∃ depth, n = depth + 1 := ⟨n - 1, by omega⟩
    rw [hopen, List.length_map]
    refine ⟨reads_lines rfl fun strings h => ?_, by omega⟩
    have hstrings := hlength strings h
    omega
  obtain ⟨s, hread, hs⟩ := exists_read_wrapped hblock
  exact Outline.parse_eq_ok hread hs

end

/-! ## Running -/

theorem bind_of_ok {α β : Type} {x : Eval α} {f : α → Eval β} {m m' : Machine} {a : α}
    (h : x m = .ok a m') : (x >>= f) m = f a m' := by
  simp only [bind, EStateM.bind, h]

theorem bind_of_error {α β : Type} {x : Eval α} {f : α → Eval β} {m m' : Machine} {why : Unwind}
    (h : x m = .error why m') : (x >>= f) m = .error why m' := by
  simp only [bind, EStateM.bind, h]

theorem within_of_ok {α : Type} {call : Call} {x : Eval α} {m m' : Machine} {a : α}
    (h : x { m with calls := call :: m.calls } = .ok a m') :
    Eval.within call x m = .ok a { m' with calls := m'.calls.tail } := by
  simp only [Eval.within, h]

theorem within_of_error {α : Type} {call : Call} {x : Eval α} {m m' : Machine} {why : Unwind}
    (h : x { m with calls := call :: m.calls } = .error why m') :
    Eval.within call x m = .error why { m' with calls := m'.calls.tail } := by
  simp only [Eval.within, h]

/-- Nothing but the time of the checks passes, nobody cancels the run, and `print` is the function of
    the host. -/
structure Attends (scope : Scope) (m : Machine) : Prop where
  running : m.watchdog.running = true
  delays : m.watchdog.delays = []
  cancelIn : m.watchdog.cancelIn = none
  cancelAfter : m.cancelAfter = none
  print : m.frames.get? scope (text "print") = some (.native .print)

/-- The machine after some more checks, and after it has shown some more texts. -/
def after (m : Machine) (checks : Nat) (shown : List Text) : Machine :=
  { m with
    watchdog := { m.watchdog with spent := m.watchdog.spent + checks }
    log := (shown.map Interaction.print).reverse ++ m.log }

theorem after_after (m : Machine) (checks checks' : Nat) (shown shown' : List Text) :
    after (after m checks shown) checks' shown' = after m (checks + checks') (shown ++ shown') := by
  simp [after, Nat.add_assoc]

section

variable {scope : Scope} {m : Machine} {fuel : Nat}

theorem Attends.after (h : Attends scope m) (checks : Nat) (shown : List Text) :
    Attends scope (after m checks shown) :=
  ⟨h.running, h.delays, h.cancelIn, h.cancelAfter, h.print⟩

/-- A check passes as long as there is time. -/
theorem Attends.tick (h : Attends scope m) (place : Position)
    (htime : m.watchdog.spent < m.watchdog.budget) :
    Eval.tick place m = .ok () (Printing.after m 1 []) := by
  have hpasses : m.watchdog.stop? = none := by
    simp [Watchdog.stop?, Watchdog.delay, h.delays, h.cancelIn, htime]
  have htick : m.watchdog.tick = { m.watchdog with spent := m.watchdog.spent + 1 } := by
    simp [Watchdog.tick, Watchdog.delay, h.running, h.delays, h.cancelIn]
  rw [tick_of_passes hpasses, htick]
  rfl

/-- A check stops the run when the time is over. -/
theorem Attends.tick_timedOut (h : Attends scope m) (place : Position)
    (htime : m.watchdog.budget ≤ m.watchdog.spent) :
    Eval.tick place m = .error (.timedOut place) m := by
  simp [Eval.tick, Watchdog.stop?, Watchdog.delay, h.delays, h.cancelIn, h.running, htime]

/-- Strings are evaluated to themselves. -/
theorem evaluateAll_strings {strings : List Text} {es : List Expression}
    (hes : Expression.unplacedAll es = strings.map fun value => .string nowhere value)
    (hfuel : strings.length < fuel) (scope : Scope) (m : Machine) :
    evaluateAll fuel scope es m = .ok (strings.map Value.string) m := by
  induction strings generalizing fuel es with
  | nil =>
    obtain ⟨fuel, rfl⟩ : ∃ n, fuel = n + 1 := ⟨fuel - 1, by omega⟩
    cases es with
    | nil => rfl
    | cons e es => simp at hes
  | cons value strings ih =>
    rw [List.length_cons] at hfuel
    obtain ⟨fuel, rfl⟩ : ∃ n, fuel = n + 2 := ⟨fuel - 2, by omega⟩
    cases es with
    | nil => simp at hes
    | cons e es =>
      obtain ⟨he, hbehind⟩ := List.cons.inj hes
      obtain ⟨place, rfl⟩ : ∃ place, e = .string place value := by
        cases e <;> simp at he
        exact ⟨_, by rw [he]⟩
      have hothers := ih hbehind (by omega : strings.length < fuel + 1)
      have hfirst : evaluate (fuel + 1) scope (.string place value) m = .ok (.string value) m := rfl
      rw [evaluateAll, bind_of_ok hfirst, bind_of_ok hothers]
      rfl

/-- A call of `print` shows its operands with single spaces between them. -/
theorem evaluate_print {strings : List Text} {e : Expression} (h : Attends scope m)
    (he : e.unplaced = .call nowhere (.identifier nowhere (text "print"))
      (strings.map fun value => .string nowhere value))
    (hfuel : strings.length + 2 ≤ fuel) :
    (m.watchdog.spent < m.watchdog.budget →
      evaluate fuel scope e m = .ok .undefined (after m 1 [Text.join [' '] strings])) ∧
    (m.watchdog.budget ≤ m.watchdog.spent →
      ∃ place, evaluate fuel scope e m = .error (.timedOut place) m) := by
  obtain ⟨fuel, rfl⟩ : ∃ n, fuel = n + 2 := ⟨fuel - 2, by omega⟩
  obtain ⟨place, callee, es, rfl⟩ : ∃ place callee es, e = .call place callee es := by
    cases e <;> simp at he
    exact ⟨_, _, _, rfl⟩
  simp only [Expression.unplaced, Expression.call.injEq, true_and] at he
  obtain ⟨hcallee, hes⟩ := he
  obtain ⟨namePlace, rfl⟩ : ∃ place, callee = .identifier place (text "print") := by
    cases callee <;> simp at hcallee
    exact ⟨_, by rw [hcallee]⟩
  -- one check for the call; in time it passes, and the operands need none
  refine ⟨fun htime => ?_, fun htime => ⟨place, ?_⟩⟩
  · have hname : Eval.find? scope (text "print") (after m 1 [])
        = .ok (some (.native .print)) (after m 1 []) := by
      simp [Eval.find?, (h.after 1 []).print]
    have hfound : Eval.find scope (text "print") namePlace (after m 1 [])
        = .ok (.native .print) (after m 1 []) := by
      rw [Eval.find, bind_of_ok hname]
      rfl
    have hoperands := evaluateAll_strings hes (by omega : strings.length < fuel + 1) scope (after m 1 [])
    have hshown : Eval.callNative .print (strings.map .string) place (after m 1 [])
        = .ok .undefined (after m 1 [Text.join [' '] strings]) := by
      have htexts (heap : Heap) : (strings.map Value.string).map heap.display = strings := by
        rw [List.map_map]
        exact List.map_id strings
      have hlook : Eval.fromHeap (fun heap => Text.join [' '] ((strings.map Value.string).map heap.display))
          (after m 1 []) = .ok (Text.join [' '] strings) (after m 1 []) := by
        rw [Eval.fromHeap, htexts]
      have hprint : Eval.print (Text.join [' '] strings) (after m 1 [])
          = .ok () (after m 1 [Text.join [' '] strings]) := by
        simp [Eval.print, after, h.cancelAfter]
      rw [Eval.callNative, bind_of_ok hlook, bind_of_ok hprint]
      rfl
    simp only [evaluate]
    rw [bind_of_ok (h.tick place htime), bind_of_ok hfound, bind_of_ok hoperands]
    exact hshown
  · simp only [evaluate]
    rw [bind_of_error (h.tick_timedOut place htime)]

/-- A statement that calls `print` is an expression. -/
theorem exists_of_unplaced {strings : List Text} {c : Command} (hc : c.unplaced = command strings) :
    ∃ e, c = .expression e ∧ e.unplaced = .call nowhere (.identifier nowhere (text "print"))
      (strings.map fun value => .string nowhere value) := by
  cases c with
  | expression e => exact ⟨e, rfl, Script.Statement.expression.inj hc⟩
  | branch test yes no => cases no <;> simp [command] at hc
  | _ => cases hc

/-- A line that prints takes two checks. -/
theorem run_print {strings : List Text} {c : Command} (h : Attends scope m)
    (hc : c.unplaced = command strings) (hfuel : strings.length + 2 ≤ fuel) :
    (m.watchdog.spent + 2 ≤ m.watchdog.budget →
      run (fuel + 1) scope c m = .ok .normal (after m 2 [Text.join [' '] strings])) ∧
    (m.watchdog.budget < m.watchdog.spent + 2 →
      ∃ place m', run (fuel + 1) scope c m = .error (.timedOut place) m' ∧ m'.log = m.log) := by
  obtain ⟨e, rfl, he⟩ := exists_of_unplaced hc
  obtain ⟨hshows, hstops⟩ := evaluate_print (h.after 1 []) he hfuel
  simp only [run]
  refine ⟨fun htime => ?_, fun htime => ?_⟩
  · have hevaluated := hshows (Nat.lt_of_succ_le htime)
    rw [after_after] at hevaluated
    rw [bind_of_ok (h.tick e.position (by omega)), bind_of_ok hevaluated]
    rfl
  -- the budget lasts for the first check, or not even for that
  · by_cases hfirst : m.watchdog.spent < m.watchdog.budget
    · obtain ⟨place, hevaluated⟩ := hstops (Nat.le_of_lt_succ htime)
      rw [bind_of_ok (h.tick e.position hfirst), bind_of_error hevaluated]
      exact ⟨place, _, rfl, by simp [after]⟩
    · rw [bind_of_error (h.tick_timedOut e.position (Nat.le_of_not_lt hfirst))]
      exact ⟨e.position, m, rfl, rfl⟩

/-- The lines are shown one after the other, as many of them as there is time for. -/
theorem runAll_prints {most : Nat} {lists : List (List Text)} {cs : List Command}
    (h : Attends scope m) (hcs : Command.unplacedAll cs = lists.map command)
    (hmost : ∀ strings ∈ lists, strings.length ≤ most) (hfuel : most + lists.length + 4 ≤ fuel)
    (hspent : m.watchdog.spent ≤ m.watchdog.budget) :
    (m.watchdog.spent + 2 * lists.length ≤ m.watchdog.budget →
      runAll fuel scope cs m
        = .ok .normal (after m (2 * lists.length) (lists.map (Text.join [' '])))) ∧
    (m.watchdog.budget < m.watchdog.spent + 2 * lists.length →
      ∃ place m', runAll fuel scope cs m = .error (.timedOut place) m' ∧
        m'.log = (((lists.take ((m.watchdog.budget - m.watchdog.spent) / 2)).map
          (Text.join [' '])).map Interaction.print).reverse ++ m.log) := by
  induction lists generalizing fuel cs m with
  | nil =>
    obtain ⟨fuel, rfl⟩ : ∃ n, fuel = n + 1 := ⟨fuel - 1, by omega⟩
    cases cs with
    | cons c cs => cases hcs
    | nil =>
      refine ⟨fun _ => ?_, fun htime => ?_⟩
      · simp [runAll, after, pure, EStateM.pure]
      -- no time is needed, so there is no time that could be too little
      · exact absurd htime (Nat.not_lt_of_le hspent)
  | cons strings lists ih =>
    rw [List.length_cons] at hfuel ⊢
    obtain ⟨fuel, rfl⟩ : ∃ n, fuel = n + 2 := ⟨fuel - 2, by omega⟩
    cases cs with
    | nil => cases hcs
    | cons c cs =>
      obtain ⟨hc, hothers⟩ := List.cons.inj hcs
      have hlength := hmost strings (by simp)
      obtain ⟨hshows, hstops⟩ := run_print h hc (by omega : strings.length + 2 ≤ fuel)
      have hbehind (htime : m.watchdog.spent + 2 ≤ m.watchdog.budget) :=
        ih (h.after 2 [Text.join [' '] strings]) hothers
          (fun others hmem => hmost others (List.mem_cons_of_mem _ hmem))
          (by omega : _ ≤ fuel + 1) htime
      refine ⟨fun htime => ?_, fun htime => ?_⟩
      · have hrest := (hbehind (by omega)).1 (by simp only [after]; omega)
        rw [runAll, bind_of_ok (hshows (by omega))]
        rw [after_after] at hrest
        show runAll (fuel + 1) scope cs _ = _
        rw [hrest, List.map_cons, Nat.mul_succ, Nat.add_comm 2]
        rfl
      · by_cases hfirst : m.watchdog.spent + 2 ≤ m.watchdog.budget
        -- there is time for the first line, but not for all of the others
        · obtain ⟨place, m', hrest, hlog⟩ := (hbehind hfirst).2 (by simp only [after]; omega)
          refine ⟨place, m', ?_, ?_⟩
          · rw [runAll, bind_of_ok (hshows hfirst)]
            exact hrest
          · have hcount : (m.watchdog.budget - m.watchdog.spent) / 2
                = (m.watchdog.budget - (m.watchdog.spent + 2)) / 2 + 1 := by omega
            rw [hlog, hcount]
            simp [after]
        · obtain ⟨place, m', hfailed, hlog⟩ := hstops (by omega)
          have hcount : (m.watchdog.budget - m.watchdog.spent) / 2 = 0 := by omega
          refine ⟨place, m', ?_, by rw [hlog, hcount]; rfl⟩
          rw [runAll, bind_of_error hfailed]

/-- Expressions declare no functions. -/
theorem hoist_expressions {cs : List Command} (hcs : ∀ c ∈ cs, ∃ e, c = .expression e) (scope : Scope)
    (m : Machine) : Eval.hoist scope cs m = .ok () m := by
  induction cs with
  | nil => rfl
  | cons c cs ih =>
    obtain ⟨e, rfl⟩ := hcs c (by simp)
    exact ih fun c h => hcs c (List.mem_cons_of_mem _ h)

/-- The function that a script is wrapped in runs the script where `print` is the function of the
    host. -/
theorem exists_runProgram_wrapped {cs : List Command} (hcs : ∀ c ∈ cs, ∃ e, c = .expression e)
    (place namePlace : Position) (w : Watchdog) (maxCalls : Nat) (answers : List Text) (fuel : Nat) :
    ∃ m scope, m.watchdog = w ∧ m.log = [] ∧ m.cancelAfter = none ∧
      m.frames.get? scope (text "print") = some (.native .print) ∧
      runProgram (fuel + 3) [.function place entryPoint namePlace [text "print", text "input"] true cs]
          (Machine.start w maxCalls answers none)
        = match runAll (fuel + 1) scope cs m with
          | .ok _ m' => .ok () { m' with calls := m'.calls.tail }
          | .error why m' => .error why { m' with calls := m'.calls.tail } := by
  let closure : Closure :=
    ⟨entryPoint, [text "print", text "input"], cs, place, Machine.globalScope⟩
  -- the function has been bound, and nothing else has happened
  let bound : Machine :=
    { Machine.start w maxCalls answers none with
      frames := (Machine.start w maxCalls answers none).frames.define Machine.globalScope entryPoint
        (.function 0)
      heap := (Heap.empty.addClosure closure).2 }
  have hbound : Eval.within ⟨topLevel, nowhere⟩ (runBlock (fuel + 3) Machine.globalScope
      [.function place entryPoint namePlace [text "print", text "input"] true cs])
        (Machine.start w maxCalls answers none) = .ok .normal bound := rfl
  have hfound : Eval.find? Machine.globalScope entryPoint bound = .ok (some (.function 0)) bound := rfl
  have hclosure : Eval.fromHeap (fun h => h.closures[0]?) bound = .ok (some closure) bound := rfl
  have hcalls : Eval.checkCalls place bound = .ok () bound := if_neg (Nat.not_lt_zero _)
  let opened : Machine := { bound with frames := bound.frames.push [] }
  have hopened : Eval.openScope Machine.globalScope bound = .ok [1, 0] opened := rfl
  let called : Machine :=
    { opened with
      frames := (opened.frames.define [1, 0] (text "print") (.native .print)).define [1, 0]
        (text "input") (.native .input) }
  have hparameters : Eval.bindParameters [1, 0] [text "print", text "input"]
      [.native .print, .native .input] opened = .ok () called := rfl
  have hhoist := hoist_expressions hcs [1, 0] { called with calls := [⟨entryPoint, place⟩] }
  refine ⟨{ called with calls := [⟨entryPoint, place⟩] }, [1, 0], rfl, rfl, rfl, rfl, ?_⟩
  rw [runProgram, bind_of_ok hbound, bind_of_ok hfound]
  show (Eval.fromHeap (fun h => h.closures[0]?) >>= _) bound = _
  rw [bind_of_ok hclosure]
  show (callClosure (fuel + 3) 0 [.native .print, .native .input] place >>= fun _ => pure ()) bound = _
  have hbody : runBlock (fuel + 2) [1, 0] cs { called with calls := [⟨entryPoint, place⟩] }
      = runAll (fuel + 1) [1, 0] cs { called with calls := [⟨entryPoint, place⟩] } := by
    rw [runBlock, bind_of_ok hhoist]
  -- whatever way the body ends, the call ends with some value
  obtain ⟨next, hcall, hnext⟩ : ∃ next : Flow → Eval Value,
      callClosure (fuel + 3) 0 [.native .print, .native .input] place bound
        = (Eval.within ⟨entryPoint, place⟩ (runBlock (fuel + 2) [1, 0] cs) >>= next) called ∧
      ∀ flow m, ∃ value, next flow m = .ok value m := by
    simp only [callClosure]
    rw [bind_of_ok hcalls, bind_of_ok hclosure]
    show ∃ next, (Eval.openScope Machine.globalScope >>= _) bound = _ ∧ _
    rw [bind_of_ok hopened, bind_of_ok hparameters]
    refine ⟨_, rfl, fun flow m => ?_⟩
    cases flow <;> exact ⟨_, rfl⟩
  cases hrun : runAll (fuel + 1) [1, 0] cs { called with calls := [⟨entryPoint, place⟩] } with
  | ok flow m' =>
    rw [bind_of_ok (within_of_ok (hbody.trans hrun))] at hcall
    obtain ⟨value, hvalue⟩ := hnext flow _
    exact bind_of_ok (hcall.trans hvalue)
  | error why m' =>
    rw [bind_of_error (within_of_error (hbody.trans hrun))] at hcall
    exact bind_of_error hcall

end

/-- The program is one function, whose statements call `print`. -/
theorem exists_of_unplacedAll {lists : List (List Text)} {program : Program}
    (h : Command.unplacedAll program = [.function nowhere entryPoint nowhere
      [text "print", text "input"] true (lists.map command)]) :
    ∃ place namePlace cs,
      program = [.function place entryPoint namePlace [text "print", text "input"] true cs] ∧
        Command.unplacedAll cs = lists.map command := by
  obtain _ | ⟨c, _ | ⟨c', cs⟩⟩ := program
  · cases h
  · have hc := (List.cons.inj h).1
    cases c with
    | function place name namePlace parameters isAsync cs =>
      simp only [Command.unplaced, Script.Statement.function.injEq, true_and] at hc
      obtain ⟨rfl, rfl, rfl, hcs⟩ := hc
      exact ⟨place, namePlace, cs, rfl, hcs⟩
    | branch test yes no => cases no <;> simp at hc
    | _ => cases hc
  · exact absurd (List.cons.inj h).2 (by simp)

theorem exists_expression {lists : List (List Text)} {cs : List Command}
    (h : Command.unplacedAll cs = lists.map command) : ∀ c ∈ cs, ∃ e, c = .expression e := by
  induction cs generalizing lists with
  | nil => simp
  | cons c cs ih =>
    cases lists with
    | nil => cases h
    | cons strings lists =>
      obtain ⟨hc, hcs⟩ := List.cons.inj h
      obtain ⟨e, he, -⟩ := exists_of_unplaced hc
      exact List.forall_mem_cons.2 ⟨⟨e, he⟩, ih hcs⟩

/-- The program that is run shows the lists, or as many of them as there is time for. -/
theorem run_eq {lists : List (List Text)} {program : Program}
    (hprogram : Command.unplacedAll program = [.function nowhere entryPoint nowhere
      [text "print", text "input"] true (lists.map command)])
    {w : Watchdog} (hrunning : w.running = true) (hdelays : w.delays = []) (hcancel : w.cancelIn = none)
    (hspent : w.spent = 0) (maxCalls : Nat) (answers : List Text) :
    let result := program.run (Machine.start w maxCalls answers none)
    (2 * lists.length ≤ w.budget →
      result = ⟨(lists.map (Text.join [' '])).map .print, .done⟩) ∧
    (w.budget < 2 * lists.length → ∃ place,
      result = ⟨((lists.take (w.budget / 2)).map (Text.join [' '])).map .print,
        .unwound (.timedOut place)⟩) := by
  intro result
  obtain ⟨place, namePlace, cs, rfl, hcs⟩ := exists_of_unplacedAll hprogram
  -- any fuel that is enough gives the same result
  let most := (lists.map List.length).sum
  have hmost : ∀ strings ∈ lists, strings.length ≤ most := fun strings h =>
    List.single_le_sum (by simp) _ (List.mem_map_of_mem h)
  obtain ⟨fuel, hresult⟩ : ∃ fuel, result = .ofEnd (runProgram
      (fuel + (most + lists.length + 4) + 3)
      [.function place entryPoint namePlace [text "print", text "input"] true cs]
      (Machine.start w maxCalls answers none)) :=
    ⟨_, run_eq_ofEnd_add _ hrunning maxCalls answers none (most + lists.length + 7)⟩
  obtain ⟨m, scope, hwatchdog, hlog, hafter, hprint, hrun⟩ := exists_runProgram_wrapped
    (exists_expression hcs) place namePlace w maxCalls answers (fuel + (most + lists.length + 4))
  subst hwatchdog
  have hattends : Attends scope m := ⟨hrunning, hdelays, hcancel, hafter, hprint⟩
  obtain ⟨hall, hsome⟩ := runAll_prints hattends hcs hmost
    (by omega : most + lists.length + 4 ≤ fuel + (most + lists.length + 4) + 1) (by omega)
  rw [hspent, Nat.zero_add] at hall hsome
  rw [hrun] at hresult
  refine ⟨fun htime => ?_, fun htime => ?_⟩
  · rw [hresult, hall htime]
    simp [Result.ofEnd, after, hlog]
  · obtain ⟨place, m', hstopped, hshown⟩ := hsome htime
    refine ⟨place, ?_⟩
    rw [hresult, hstopped]
    simp [Result.ofEnd, hshown, hlog]

theorem eventsFrom_prints (ids : Nat → Text) (count : Nat) (shown : List Text) :
    Transcript.eventsFrom ids count (shown.map .print) = shown.map .stdout := by
  induction shown with
  | nil => rfl
  | cons t shown ih => rw [List.map_cons, Transcript.eventsFrom, ih, List.map_cons]

end Printing

open Printing

/-- Strings survive every stage. A program that prints lists of strings has no findings, whatever the
    strings are, and a conversation with its run has one event for each list, the strings with single
    spaces between them, and then its end; every line takes two checks of the watchdog, and when the
    time is over before the last line is shown, the event that says so follows those that were. -/
theorem Execution.prints_strings {title : Text} {lists : List (List Text)}
    (htitle : Text.IsTrimmed title) (hline : '\n' ∉ title) (hlists : ∀ strings ∈ lists, strings ≠ []) :
    validate (source title lists) = [] ∧
      ∀ (limits : Limits) (ids : Nat → Text) (replies : List Reply),
        let ticks := limits.budget * Watchdog.ticksPerMillisecond
        let events := Exchange.events
          ((Execution.ofSource (source title lists) limits ids).converse replies).1
        (2 * lists.length ≤ ticks →
          events = lists.map (fun strings => .stdout (Text.join [' '] strings)) ++ [.done]) ∧
        (ticks < 2 * lists.length → ∃ place,
          events = (lists.take (ticks / 2)).map (fun strings => .stdout (Text.join [' '] strings)) ++
            [.error (Report.ofTimeout (translate (source title lists)) limits.budget place)]) := by
  have hvalid := validate_source htitle hline hlists
  refine ⟨hvalid, ?_⟩
  intro limits ids replies ticks events
  obtain ⟨program, hparse, hprogram⟩ := parse_wrapped htitle hline hlists
  have hnone : ((validate (source title lists)).map Finding.issue).map
      (fun issue => Event.stderr (Report.warning issue)) = [] := by rw [hvalid]; rfl
  obtain ⟨⟨herrors, -⟩ | ⟨-, -, said, hevents, hsaid⟩, -⟩ :=
    converse_ofSource (source title lists) limits ids replies
  · rw [hvalid] at herrors
    cases herrors
  rw [hnone, List.nil_append] at hevents
  obtain ⟨fault, -, herror, -⟩ | ⟨program', answers, hok, -, last, hlast, htells⟩ := hsaid
  · rw [hparse] at herror
    cases herror
  rw [hparse] at hok
  obtain rfl := Except.ok.inj hok
  have hresult := run_eq hprogram (w := Watchdog.start limits.budget limits.policy) rfl rfl rfl rfl
    limits.maxCalls answers
  have hshown (shown : List (List Text)) :
      Transcript.eventsFrom ids 0 ((shown.map (Text.join [' '])).map .print)
        = shown.map fun strings => .stdout (Text.join [' '] strings) := by
    rw [eventsFrom_prints, List.map_map]
    rfl
  -- nobody is asked for input, so the run is not cancelled for want of an answer
  refine ⟨fun htime => ?_, fun htime => ?_⟩
  · rw [hresult.1 htime] at hlast htells
    split at htells
    · cases htells.1
    · cases htells
      rw [hshown] at hlast
      exact hevents.trans hlast
  · obtain ⟨place, hstopped⟩ := hresult.2 htime
    rw [hstopped] at hlast htells
    split at htells
    · cases htells.1
    · cases htells
      rw [hshown] at hlast
      exact ⟨place, hevents.trans hlast⟩

/-- Two lines, with a quotation mark, a comma, a line feed and a backslash in their strings. -/
theorem Execution.prints_strings_escaped :
    validate (source (text "a") [[text "say \"x, y\"", []], [text "\n\\"]]) = [] ∧
      ∀ ids replies, Exchange.events ((Execution.ofSource
        (source (text "a") [[text "say \"x, y\"", []], [text "\n\\"]]) .default ids).converse replies).1
          = [.stdout (text "say \"x, y\" "), .stdout (text "\n\\"), .done] := by
  have htitle : Text.IsTrimmed (text "a") := by decide
  have hlists : ∀ strings ∈ [[text "say \"x, y\"", []], [text "\n\\"]], strings ≠ [] := by decide
  have h := Execution.prints_strings htitle (by decide) hlists
  exact ⟨h.1, fun ids replies => (h.2 .default ids replies).1 (by decide)⟩

end Pseudocode
