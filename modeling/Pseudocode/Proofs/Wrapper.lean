import Pseudocode.Proofs.Declarations
import Pseudocode.Proofs.Survey
import Pseudocode.Report.Location
import Pseudocode.Script.Evaluation

/-!
# The function around a script

A script is run inside of a function. The text that is run begins with that function, whatever the
script is, and the function goes as far as the brace that closes it.
-/

namespace Pseudocode.Script

/-! ## What a reader has read -/

/-- A property of readings that stays true if the text is understood further. -/
def Reading.IsUpward {α : Type} (K : Reading α → Prop) : Prop :=
  ∀ result m n, m ≤ n → K ⟨result, m⟩ → K ⟨result, n⟩

namespace Reader

variable {α β : Type} {r : Reader α} {f : α → Reader β} {t mid : Text} {P : α → Prop}

/-- Behind a part of which is known what it reads, the next part decides. -/
theorem Reads.bind_of {I : Cursor → Prop} {K : Reading β → Prop} (h : Reads r t P mid)
    (hK : Reading.IsUpward K) (hfinds : Finds I (fun _ => True) r) {offset : Nat}
    (hstart : I ⟨t, offset⟩)
    (hnext : ∀ a offset', P a → I ⟨mid, offset'⟩ → K (f a ⟨mid, offset'⟩)) :
    K ((r >>= f) ⟨t, offset⟩) := by
  obtain ⟨a, offset', reach, hr, ha⟩ := h offset
  have hbind : (r >>= f) ⟨t, offset⟩ =
      ⟨(f a ⟨mid, offset'⟩).result, max reach (f a ⟨mid, offset'⟩).reach⟩ := by
    simp only [Bind.bind, andThen, hr]
  rw [hbind]
  exact hK _ _ _ (Nat.le_max_right _ _)
    (hnext a offset' ha (hfinds ⟨t, offset⟩ a ⟨mid, offset'⟩ hstart (by rw [hr])).2)

theorem part_of {K : Reading α → Prop} (hK : Reading.IsUpward K) {c : Cursor} (h : K (r c)) :
    K (part r c) := by
  simp only [part]
  split
  · rename_i hr
    rw [hr] at h
    exact hK _ _ _ (Nat.le_max_left _ _) h
  · exact h

theorem Fails.result_eq_none (h : Fails r t) (offset : Nat) : (r ⟨t, offset⟩).result = none := by
  obtain ⟨reach, hr⟩ := h offset
  rw [hr]

/-- A repetition adds to what it has found. -/
private theorem result_iterate_found (fuel : Nat) (found : List α) (c : Cursor) :
    (iterate (fun found => do return (← r) :: found) fuel found c).result =
      (iterate (fun found => do return (← r) :: found) fuel [] c).result.map
        fun p => (p.1 ++ found, p.2) := by
  induction fuel generalizing found c with
  | zero => rfl
  | succ fuel ih =>
    rw [result_iterate_succ, result_iterate_succ, Reader.result_bind, Reader.result_bind]
    cases hr : (r c).result with
    | none => rfl
    | some p =>
      simp only [Option.bind_some, Reader.result_pure, Option.elim_some]
      rw [ih (p.1 :: found), ih [p.1], Option.map_map]
      congr 1
      funext q
      simp

theorem result_many (fuel : Nat) (c : Cursor) : (many fuel r c).result =
    (iterate (fun found => do return (← r) :: found) fuel [] c).result.map
      fun p => (p.1.reverse, p.2) := by
  rw [many, Reader.result_bind]
  cases (iterate (fun found => do return (← r) :: found) fuel [] c).result <;> rfl

/-- A repetition is that of what it reads first, and then of what is left. -/
theorem many_eq_some {fuel : Nat} {as : List α} {c c' : Cursor}
    (h : (many (fuel + 1) r c).result = some (as, c')) :
    (r c).result = none ∧ as = [] ∧ c' = c ∨
      ∃ a next others, (r c).result = some (a, next) ∧ as = a :: others ∧
        (many fuel r next).result = some (others, c') := by
  rw [result_many, result_iterate_succ, Reader.result_bind] at h
  -- nothing is read, or the rest is read from where the first one ends
  cases hr : (r c).result with
  | none =>
    rw [hr] at h
    obtain ⟨rfl, rfl⟩ := Prod.mk.inj (Option.some.inj h)
    exact .inl ⟨rfl, rfl, rfl⟩
  | some p =>
    simp only [hr, Option.bind_some, Reader.result_pure, Option.elim_some] at h
    rw [result_iterate_found fuel [p.1], Option.map_map, Option.map_eq_some_iff] at h
    obtain ⟨q, hq, heq⟩ := h
    obtain ⟨rfl, rfl⟩ := Prod.mk.inj heq
    refine .inr ⟨p.1, p.2, q.1.reverse, rfl, by simp, ?_⟩
    rw [result_many, hq]
    rfl

/-- A repetition that finds nothing stays where it is. -/
theorem eq_of_many_eq_nil {fuel : Nat} {c c' : Cursor}
    (h : (many fuel r c).result = some ([], c')) : c' = c := by
  cases fuel with
  | zero => exact (Prod.mk.inj (Option.some.inj h)).2.symm
  | succ fuel =>
    rcases many_eq_some h with ⟨-, -, hc⟩ | ⟨_, _, _, -, hcons, -⟩
    · exact hc
    · cases hcons

theorem many_eq_nil {fuel : Nat} {as : List α} {c c' : Cursor} (hr : (r c).result = none)
    (h : (many fuel r c).result = some (as, c')) : as = [] := by
  cases fuel with
  | zero => exact (Prod.mk.inj (Option.some.inj h)).1.symm
  | succ fuel =>
    rcases many_eq_some h with ⟨-, has, -⟩ | ⟨_, _, _, hsome, -, -⟩
    · exact has
    · rw [hr] at hsome
      cases hsome

end Reader

/-! ## The function -/

open Reader Grammar

section

variable {fuel depth : Nat} {code : Text}

theorem entryPoint_isIdentifier : IsIdentifier entryPoint :=
  ⟨⟨'_', _, rfl, rfl⟩, List.all_eq_true.1 (by decide), by decide⟩

theorem wrapperParameters_isIdentifier :
    ∀ p ∈ [text "print", text "input"], IsIdentifier p := by
  intro p hp
  fin_cases hp
  · exact ⟨⟨'p', _, rfl, rfl⟩, List.all_eq_true.1 (by decide), by decide⟩
  · exact ⟨⟨'i', _, rfl, rfl⟩, List.all_eq_true.1 (by decide), by decide⟩

/-- What is run begins with the header of a function. -/
theorem wrapped_eq (code : Text) : Translation.wrapped code =
    text "async" ++ [' '] ++ text "function" ++ ' ' :: (entryPoint ++
      '(' :: (Text.join (text ", ") [text "print", text "input"] ++ ')' :: ' ' :: '\x7b' ::
        '\n' :: (code ++ ['\n', '\x7d']))) := by
  simp [Translation.wrapped, text, entryPoint, Text.join]

theorem wordStart_wrapped (code : Text) : wordStart (Translation.wrapped code) = text "async" := by
  rw [wrapped_eq]
  exact wordStart_keyword (w := text "async") (c := ' ') (by decide) rfl _

/-- Neither a word nor a phrase begins with the mark of a function. -/
theorem fails_expression_wrapped (code : Text) (depth : Nat) :
    Fails (phrase fuel depth) (Translation.wrapped code) := by
  have hword := wordStart_wrapped code
  have hstart : ∃ t, Translation.wrapped code = 'a' :: t := ⟨_, rfl⟩
  obtain ⟨t, ht⟩ := hstart
  rw [ht] at hword ⊢
  refine fails_phrase_of_primary (fun self => fails_oneOf fun r hr => ?_) ?_ depth
  · rcases List.mem_append.1 (show r ∈ [_, _, _, _, _, _, _] ++ [_, _] from hr) with hr | hr
    · exact fails_before_identifier (by decide) (by decide) hword (by decide) r hr
    · fin_cases hr
      · refine fails_single ?_
        rw [Token.identifier?, Token.name?, hword]
        rfl
      · exact (reads_place fun _ => trivial).bind_fails fun _ _ => (fails_sign (by simp)).bind
  · exact unaryOperator?_eq_none (by decide) hword (by decide)

/-- The text that is run begins with no sentence but the function. -/
theorem sentence_wrapped {self : Reader Sentence} {offset : Nat} {found : Sentence × Cursor}
    (h : (sentence fuel self ⟨Translation.wrapped code, offset⟩).result = some found) :
    (Grammar.function fuel self ⟨Translation.wrapped code, offset⟩).result = some found := by
  rw [sentence_eq] at h
  obtain ⟨r, hr, hread⟩ := oneOf_eq_some h
  -- the alternative that has read does not fail, and all but one fail at the word `async`
  have hfails : ¬Fails r (Translation.wrapped code) := by
    intro hr
    rw [hr.result_eq_none offset] at hread
    cases hread
  have hsign : ∀ c ∈ (Translation.wrapped code).head?, c ∉ ['\x7b', ';'] := by
    rintro _ ⟨⟩
    decide
  have hwords := wordStart_wrapped code
  have hothers : List.Forall₂ (fun words r => wordStart (Translation.wrapped code) ∉ words →
      Fails r (Translation.wrapped code)) sentenceWords (sentenceAlternatives fuel self) :=
    fails_alternatives hsign
  rw [hwords] at hothers
  simp only [sentenceWords, sentenceAlternatives, List.forall₂_cons] at hothers
  obtain ⟨hblock, -, hbranch, hwhile, hfor, hdeclaration, hreturning, hbreaking, hcontinuing, hempty,
    -⟩ := hothers
  rcases List.mem_append.1 hr with hr | hr
  · simp only [sentenceAlternatives, List.mem_cons, List.not_mem_nil, or_false] at hr
    rcases hr with rfl | rfl | rfl | rfl | rfl | rfl | rfl | rfl | rfl | rfl
    · exact absurd (hblock (by decide)) hfails
    · exact hread
    · exact absurd (hbranch (by decide)) hfails
    · exact absurd (hwhile (by decide)) hfails
    · exact absurd (hfor (by decide)) hfails
    · exact absurd (hdeclaration (by decide)) hfails
    · exact absurd (hreturning (by decide)) hfails
    · exact absurd (hbreaking (by decide)) hfails
    · exact absurd (hcontinuing (by decide)) hfails
    · exact absurd (hempty (by decide)) hfails
  · obtain rfl := List.mem_singleton.1 hr
    exact absurd (fails_expression_wrapped code fuel).bind.part hfails

/-- The header of the function is read as such, so a reading of the function is decided by what the
    braces behind the header are read as. -/
theorem function_wrapped_of {I : Cursor → Prop} {Q : Nat → Prop} {K : Reading Sentence → Prop}
    {self : Reader Sentence} (hK : Reading.IsUpward K) (hI : Surveys I Q) (hfuel : 2 ≤ fuel)
    {offset : Nat} (hstart : I ⟨Translation.wrapped code, offset⟩)
    (hbraces : ∀ start namePlace inside,
      I ⟨'\x7b' :: '\n' :: (code ++ ['\n', '\x7d']), inside⟩ →
        K ((braces fuel self >>= fun body => pure
            (.function start entryPoint namePlace [text "print", text "input"] true body))
          ⟨'\x7b' :: '\n' :: (code ++ ['\n', '\x7d']), inside⟩)) :
    K (Grammar.function fuel self ⟨Translation.wrapped code, offset⟩) := by
  have hlist := reads_parameters wrapperParameters_isIdentifier hfuel
    ('\n' :: (code ++ ['\n', '\x7d']))
  have hname := reads_functionName entryPoint_isIdentifier
    (Text.join (text ", ") [text "print", text "input"] ++ ')' :: ' ' :: '\x7b' ::
      '\n' :: (code ++ ['\n', '\x7d']))
  have hplace : Finds I (fun _ => True) place := fun c _ _ hc h => by
    obtain ⟨-, rfl⟩ := Prod.mk.inj (Option.some.inj h)
    exact ⟨trivial, hc⟩
  have htoken : Finds I (fun _ => True) (part (token Token.identifier?)) :=
    (hI.token fun _ _ _ _ => trivial).part
  rw [wrapped_eq] at hstart ⊢
  generalize '(' :: (Text.join (text ", ") [text "print", text "input"] ++ ')' :: ' ' :: '\x7b' ::
      '\n' :: (code ++ ['\n', '\x7d'])) = list at hstart hlist hname ⊢
  -- mark, word, name and parameters are read as they were written, up to the brace
  refine part_of hK ?_
  refine (reads_place fun _ => trivial).bind_of hK hplace hstart fun start _ _ hstart => ?_
  refine (reads_functionMark true (entryPoint ++ list)).bind_of hK
    ((hI.word _).part.optional.mono fun _ _ => trivial) hstart fun mark _ hmark hstart => ?_
  refine (reads_functionWord entryPoint_isIdentifier list).bind_of hK (hI.word _).part hstart
    fun _ _ _ hstart => ?_
  refine (reads_place fun _ => trivial).bind_of hK hplace hstart fun namePlace _ _ hstart => ?_
  refine hname.bind_of hK htoken hstart fun name _ hname hstart => ?_
  subst hname
  refine hlist.bind_of hK (finds_parameters hI) hstart fun names inside hnames hstart => ?_
  subst hnames
  rw [hmark]
  exact hbraces start namePlace inside hstart

/-- The function around a script ends at the brace that closes it. -/
theorem function_wrapped {self : Reader Sentence} (hself : Balanced self) (hfuel : 2 ≤ fuel)
    {offset : Nat} {s : Sentence} {c : Cursor}
    (h : (Grammar.function fuel self ⟨Translation.wrapped code, offset⟩).result = some (s, c)) :
    ∃ start namePlace body rest,
      s = .function start entryPoint namePlace [text "print", text "input"] true body ∧
      c.rest = skip rest ∧ behind 0 0 (code ++ ['\n', '\x7d']) = some rest := by
  revert h
  refine function_wrapped_of (I := fun _ => True) (Q := fun _ => True)
    (K := fun reading => reading.result = some (s, c) → _) (fun _ _ _ _ h => h)
    ⟨fun _ _ _ => trivial, fun _ _ _ _ _ _ => trivial⟩ hfuel trivial
    fun start namePlace inside _ h => ?_
  rw [Reader.result_bind, Option.bind_eq_some_iff] at h
  obtain ⟨⟨body, last⟩, hbraces, heq⟩ := h
  obtain ⟨rfl, rfl⟩ := Prod.mk.inj (Option.some.inj heq)
  -- the body ends at the brace that closes the function
  rw [braces, result_part] at hbraces
  obtain ⟨mid, rest, hmid, hrest, hbehind, -⟩ := (hself.many fuel).braces_eq_some hbraces
  obtain rfl := (List.cons.inj hmid).2
  refine ⟨start, namePlace, body, rest, rfl, hrest, ?_⟩
  rwa [behind_cons_of_isPlain rfl] at hbehind

/-- There is nothing before the function. -/
theorem ofText_wrapped (code : Text) :
    Cursor.ofText (Translation.wrapped code) = ⟨Translation.wrapped code, 0⟩ := rfl

theorem length_wrapped_pos (code : Text) : 0 < (Translation.wrapped code).length := by
  rw [wrapped_eq]
  exact Nat.zero_lt_succ _

/-- What is read of a script in its function: the function, and other sentences up to the end. -/
theorem exists_of_read_wrapped {sentences : List Sentence}
    (h : read (Translation.wrapped code) = .ok sentences) :
    let fuel := (Translation.wrapped code).length
    ∃ s next others last,
      (Grammar.function (fuel + 1) (statement (fuel + 1) fuel) ⟨Translation.wrapped code, 0⟩).result =
        some (s, next) ∧ sentences = s :: others ∧
      (many fuel (statement (fuel + 1) (fuel + 1)) next).result = some (others, last) ∧
      last.rest = [] := by
  intro fuel
  have hresult : ∃ c, (program (fuel + 1) (Cursor.ofText (Translation.wrapped code))).result =
      some (sentences, c) := by
    unfold read at h
    split at h
    · rename_i c _ hread
      obtain rfl := Except.ok.inj h
      exact ⟨c, by rw [hread]⟩
    · cases h
  obtain ⟨c, hresult⟩ := hresult
  rw [ofText_wrapped, program, Reader.result_bind,
    Option.bind_eq_some_iff] at hresult
  obtain ⟨⟨found, last⟩, hmany, hfinished⟩ := hresult
  rw [Reader.result_bind, Option.bind_eq_some_iff] at hfinished
  obtain ⟨⟨_, _⟩, hend, heq⟩ := hfinished
  obtain ⟨rfl, -⟩ := Prod.mk.inj (Option.some.inj heq)
  rw [result_part] at hend
  have hlast : last.rest = [] := by
    obtain ⟨hempty, -⟩ := Option.ite_none_right_eq_some.1 hend
    exact List.isEmpty_iff.1 hempty
  -- one sentence at least, and it is the function around the script
  rcases many_eq_some hmany with ⟨-, -, rfl⟩ | ⟨s, next, others, hfirst, rfl, hothers⟩
  · -- nothing has been read, so the text would have to be empty
    exact absurd hlast (List.ne_nil_of_length_pos (length_wrapped_pos code))
  · exact ⟨s, next, others, last, sentence_wrapped hfirst, rfl, hothers, hlast⟩

/-- A script in its function is read as that function, and as other sentences if anything but white
    space and comments stands behind the brace that closes the function. -/
theorem read_wrapped {sentences : List Sentence}
    (h : read (Translation.wrapped code) = .ok sentences) :
    ∃ start namePlace body others rest,
      sentences = .function start entryPoint namePlace [text "print", text "input"] true body :: others ∧
      behind 0 0 (code ++ ['\n', '\x7d']) = some rest ∧ (others = [] ↔ skip rest = []) := by
  obtain ⟨s, next, others, last, hfirst, rfl, hothers, hlast⟩ := exists_of_read_wrapped h
  obtain ⟨start, namePlace, body, rest, rfl, hrest, hbehind⟩ :=
    function_wrapped (balanced_statement _) (Nat.succ_le_succ (length_wrapped_pos code)) hfirst
  refine ⟨start, namePlace, body, others, rest, rfl, hbehind, fun hnone => ?_, fun hnone => ?_⟩
  · subst hnone
    rw [← hrest, ← eq_of_many_eq_nil hothers, hlast]
  · refine many_eq_nil ?_ hothers
    have hnext : next = ⟨[], next.offset⟩ := by rw [← hnone, ← hrest]
    rw [hnext]
    exact (fails_statement_nil _).result_eq_none _

/-- A script that is read as commands up to the brace behind it is read as one function. -/
theorem exists_read_wrapped {cs : List Command}
    (h : ∀ n, (code ++ ['\n', '\x7d']).length < n →
      ReadsBlock (statement (n + 1) n) false (skip (code ++ ['\n', '\x7d'])) cs ['\x7d'] ∧
        cs.length ≤ n) :
    ∃ s, read (Translation.wrapped code) = .ok [s] ∧
      IsFunction entryPoint [text "print", text "input"] true cs s := by
  have hskip : skip (Translation.wrapped code) = Translation.wrapped code := by
    rw [wrapped_eq]
    exact skip_cons_of_token rfl (by decide) _
  have hwrapped := wrapped_eq code
  generalize Translation.wrapped code = t at hskip hwrapped ⊢
  have hlength : (code ++ ['\n', '\x7d']).length < t.length := by
    rw [hwrapped]
    simp only [List.length_append, List.length_cons]
    omega
  obtain ⟨hbody, hcount⟩ := h _ hlength
  rw [← skip_newline] at hbody
  have hfunction := reads_function true entryPoint_isIdentifier wrapperParameters_isIdentifier
    (by simp; omega) hbody (Nat.le_succ_of_le hcount)
  rw [if_pos rfl, ← hwrapped] at hfunction
  -- the function is the only sentence: behind its brace the text has ended
  have hall : ReadsAll (statement (t.length + 1) (t.length + 1))
      (fun (_ : Unit) s => IsFunction entryPoint [text "print", text "input"] true cs s) t [()] [] :=
    .cons hfunction (.nil (fails_statement_nil _))
  obtain ⟨ss, hread, hss⟩ := read_eq_ok hskip hall (by simp)
  obtain ⟨s, rest, hs, hrest, rfl⟩ := List.forall₂_cons_left_iff.1 hss
  obtain rfl := List.forall₂_nil_left_iff.1 hrest
  exact ⟨s, hread, hs⟩

end

/-- A script that is a program in its function is the function that is run, and more than that
    exactly if anything but white space and comments stands behind the brace that closes it. -/
theorem Program.parse_wrapped {code : Text} {program : Program}
    (h : Program.parse (Translation.wrapped code) = .ok program) :
    ∃ place namePlace body others rest,
      program = .function place entryPoint namePlace [text "print", text "input"] true body :: others ∧
      behind 0 0 (code ++ ['\n', '\x7d']) = some rest ∧ (others = [] ↔ skip rest = []) := by
  obtain ⟨ss, declared, hread, hcheck⟩ := Program.exists_of_parse h
  obtain ⟨start, namePlace, body, others, rest, rfl, hbehind, hothers⟩ := read_wrapped hread
  simp only [Statement.checkAll, Statement.check, Checked.bind_eq_ok, Checked.pure_eq_ok,
    Prod.mk.injEq, Prod.exists] at hcheck
  obtain ⟨_, _, ⟨_, -, checked, _, -, rfl, rfl⟩, checkedOthers, _, hcheckOthers, rfl, -⟩ := hcheck
  refine ⟨_, _, checked, checkedOthers, rest, rfl, hbehind, ?_⟩
  rw [← hothers]
  -- the checks keep the number of statements
  cases others with
  | nil =>
    obtain ⟨rfl, -⟩ := Prod.mk.inj (Except.ok.inj hcheckOthers)
    exact ⟨fun _ => rfl, fun _ => rfl⟩
  | cons s others =>
    simp only [Statement.checkAll, Checked.bind_eq_ok, Checked.pure_eq_ok, Prod.mk.injEq,
      Prod.exists] at hcheckOthers
    obtain ⟨c, _, -, cs, _, -, rfl, -⟩ := hcheckOthers
    simp

end Pseudocode.Script
