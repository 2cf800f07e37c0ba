import Pseudocode.Proofs.PhraseReading

/-!
# Reading sentences

A sentence is read by the first alternative of the grammar that its first word or sign allows. The
lemmas here say which alternatives a text rules out, and what each of the others reads, given what
its phrases and blocks are read as. Text behind a brace is read up to the next token, so a block may
go over many lines.
-/

namespace Pseudocode.Script

open Reader Grammar

/-- Sentences are read one after another as the commands that they mean. -/
abbrev ReadsBlock (r : Reader Sentence) (inLoop : Bool) (t : Text) (cs : List Command)
    (rest : Text) : Prop :=
  ReadsAll r (fun c s => Statement.Means inLoop s c) t cs rest

section

variable {fuel room : Nat} {self : Reader Sentence} {t mid rest : Text} {inLoop : Bool}
  {e : Expression} {cs : List Command}

/-! ## Alternatives that are ruled out -/

/-- The words that each alternative but the last begins with. -/
def sentenceWords : List (List Text) := [
  [], [text "async", text "function"], [text "if"], [text "while"], [text "for"],
  [text "let", text "const", text "var"], [text "return"], [text "break"], [text "continue"], []]

/-- All alternatives of a sentence but the last, which is a phrase. -/
def sentenceAlternatives (fuel : Nat) (self : Reader Sentence) : List (Reader Sentence) := [
  do return Statement.block (← braces fuel self),
  Grammar.function fuel self,
  branch fuel self,
  whileLoop fuel self,
  forLoop fuel self,
  Reader.part do
    let (kind, declarators) ← declaration fuel
    sign ';'
    return .declaration kind declarators,
  Reader.part do
    let start ← place
    Reader.part (word (text "return"))
    let value ← optional (expression fuel)
    sign ';'
    return .returning start value,
  Reader.part do
    let start ← place
    Reader.part (word (text "break"))
    sign ';'
    return .breaking start,
  Reader.part do
    let start ← place
    Reader.part (word (text "continue"))
    sign ';'
    return .continuing start,
  Reader.part do
    sign ';'
    return .empty]

theorem sentence_eq : sentence fuel self = oneOf (sentenceAlternatives fuel self ++ [
    Reader.part do
      let e ← expression fuel
      sign ';'
      return .expression e]) := rfl

/-- An alternative fails where neither its words nor a sign stand. -/
theorem fails_alternatives (hsign : ∀ c ∈ t.head?, c ∉ ['\x7b', ';']) :
    List.Forall₂ (fun words r => wordStart t ∉ words → Fails r t) sentenceWords
      (sentenceAlternatives fuel self) := by
  have hfails (c : Char) (hc : c ∈ ['\x7b', ';']) : Fails (sign c) t :=
    fails_sign fun h => hsign c h hc
  have hjump {α : Type} {w : Text} {f : Nat → Reader α} (h : wordStart t ∉ [w]) :
      Fails (Reader.part (do let start ← place; Reader.part (word w); f start)) t :=
    ((reads_place fun _ => trivial).bind_fails fun _ _ =>
      (fails_word (by simpa using h)).part.bind).part
  -- in the order of the alternatives: block, function, branch, loops, declaration, jumps, empty
  refine .cons (fun _ => (hfails '\x7b' (by decide)).bind.part.bind) ?_
  refine .cons (fun h => ?_) ?_
  · simp only [List.mem_cons, List.not_mem_nil, or_false, not_or] at h
    refine ((reads_place fun _ => trivial).bind_fails fun _ _ => ?_).part
    refine (fails_word h.1).part.optional.bind_fails fun _ _ => ?_
    exact (fails_word h.2).part.bind
  refine .cons (fun h => (fails_word (by simpa using h)).part.bind.bind.part) ?_
  refine .cons (fun h => (fails_word (by simpa using h)).part.bind.bind.part) ?_
  refine .cons hjump ?_
  refine .cons (fun h => ?_) ?_
  · have hnone : Token.wordOf? [(text "let", BindingKind.let), (text "const", .const),
        (text "var", .var)] t = none := wordOf?_eq_none rfl (by simpa using h)
    exact (fails_token hnone).part.bind.part.bind.part
  refine .cons hjump ?_
  refine .cons hjump ?_
  refine .cons hjump ?_
  exact .cons (fun _ => (hfails ';' (by decide)).bind.part) .nil

/-- The alternatives before one of them fail if none begins with the first word. -/
theorem fails_before (hsign : ∀ c ∈ t.head?, c ∉ ['\x7b', ';']) (n : Nat)
    (h : wordStart t ∉ (sentenceWords.take n).flatten) :
    ∀ r ∈ (sentenceAlternatives fuel self).take n, Fails r t :=
  fails_take (fails_alternatives hsign) n h

theorem wordStart_keyword {w : Text} {c : Char} (hw : w.all Text.isIdentifierChar = true)
    (hc : Text.isIdentifierChar c = false) (t : Text) : wordStart (w ++ c :: t) = w := by
  refine wordStart_append (List.all_eq_true.1 hw) ?_
  rintro _ ⟨⟩
  exact hc

/-- An alternative that begins with a word reads if the ones before it begin with others. -/
theorem Reader.Reads.keyword {P : Sentence → Prop} {r : Reader Sentence} {w : Text} {n : Nat}
    (h : Reads r t P rest) (hr : (sentenceAlternatives fuel self)[n]? = some r)
    (hword : wordStart t = w) (hne : w ≠ []) (hw : w ∉ (sentenceWords.take n).flatten) :
    Reads (sentence fuel self) t P rest := by
  have hsign : ∀ c ∈ t.head?, c ∉ ['\x7b', ';'] := by
    rintro c hc hsign
    obtain ⟨t, rfl⟩ : ∃ s, t = c :: s := ⟨t.tail, (List.cons_head?_tail hc).symm⟩
    have hchar : Text.isIdentifierChar c = false := by fin_cases hsign <;> rfl
    rw [wordStart, List.takeWhile_cons_of_neg (by simp [hchar])] at hword
    exact hne hword.symm
  obtain ⟨hn, rfl⟩ := List.getElem?_eq_some_iff.1 hr
  have hsplit := List.take_append_drop n (sentenceAlternatives fuel self)
  rw [List.drop_eq_getElem_cons hn] at hsplit
  rw [sentence_eq, ← hsplit, List.append_assoc, List.cons_append]
  exact h.oneOf _ (fails_before hsign n (by rwa [hword]))

/-- A sentence is missing where a phrase is missing and no word or sign of a sentence stands. -/
theorem fails_statement (hphrase : Fails (expression fuel) t)
    (hsign : ∀ c ∈ t.head?, c ∉ ['\x7b', ';']) (hword : wordStart t ∉ sentenceWords.flatten)
    (depth : Nat) : Fails (statement fuel depth) t := by
  cases depth with
  | zero => exact fails_fail
  | succ depth =>
    show Fails (sentence fuel (statement fuel depth)) t
    rw [sentence_eq]
    refine fails_oneOf fun r hr => ?_
    rcases List.mem_append.1 hr with hr | hr
    · exact fails_before hsign 10 hword r hr
    · rw [List.mem_singleton] at hr
      subst hr
      exact hphrase.bind.part

/-- A block ends at its brace. -/
theorem fails_statement_brace (t : Text) (depth : Nat) :
    Fails (statement fuel depth) ('\x7d' :: t) := by
  refine fails_statement (fails_phrase (by decide) t fuel) ?_ ?_ depth
  · rintro _ ⟨⟩
    decide
  · show [] ∉ sentenceWords.flatten
    decide

/-- A script ends at the end of the text. -/
theorem fails_statement_nil (depth : Nat) : Fails (statement fuel depth) [] :=
  fails_statement (fails_phrase_nil fuel) (by simp) (by decide) depth

/-! ## Phrases and jumps -/

/-- A phrase that no sentence with a keyword or a brace begins like. -/
theorem reads_expression {written : Text} {P : Phrase → Prop}
    (h : Reads (expression fuel) (written ++ ';' :: t) P (';' :: t))
    (hsign : ∀ c ∈ (written ++ ';' :: t).head?, c ∉ ['\x7b', ';'])
    (hword : wordStart (written ++ ';' :: t) ∉ sentenceWords.flatten) :
    Reads (sentence fuel self) (written ++ ';' :: t) (fun s => ∃ p, s = .expression p ∧ P p)
      (skip t) := by
  rw [sentence_eq]
  refine Reads.oneOf ?_ _ (fails_before hsign 10 hword)
  refine (h.bind fun p hp => ?_).part
  exact (reads_sign ';' t).bind fun _ _ => reads_pure ⟨p, rfl, hp⟩

theorem ReadsPhrase.reads_sentence {written : Text} (h : ReadsPhrase (expression fuel) room written e)
    (hroom : room ≤ Program.maxDepth)
    (hsign : ∀ c ∈ (written ++ ';' :: t).head?, c ∉ ['\x7b', ';'])
    (hword : wordStart (written ++ ';' :: t) ∉ sentenceWords.flatten) :
    Reads (sentence fuel self) (written ++ ';' :: t)
      (fun s => Statement.Means inLoop s (.expression e)) (skip t) := by
  refine (reads_expression (h.reads ';' (by decide) t) hsign hword).mono ?_
  rintro _ ⟨p, rfl, hp⟩
  exact Statement.expression_means hp hroom

/-- A keyword that is the whole sentence. -/
theorem reads_jump {w : Text} {make : Nat → Sentence} (hw : w.all Text.isIdentifierChar = true) :
    Reads (Reader.part (do
      let start ← place
      Reader.part (word w)
      sign ';'
      return make start)) (w ++ ';' :: t) (fun s => ∃ start, s = make start) (skip t) := by
  refine (Reads.bind (reads_place fun _ => trivial) fun start _ => ?_).part
  have hkeyword := reads_word (wordStart_keyword hw rfl t : wordStart (w ++ ';' :: t) = w)
  rw [skip_cons_of_token rfl (by decide)] at hkeyword
  refine hkeyword.part.bind fun _ _ => ?_
  exact (reads_sign ';' t).bind fun _ _ => reads_pure ⟨start, rfl⟩

theorem reads_breaking : Reads (sentence fuel self) (text "break" ++ ';' :: t)
    (fun s => Statement.Means true s (.breaking nowhere)) (skip t) := by
  have hword : wordStart (text "break" ++ ';' :: t) = text "break" :=
    wordStart_keyword (by decide) rfl t
  refine ((reads_jump (by decide)).mono ?_).keyword (n := 7) rfl hword (by decide) (by decide)
  rintro _ ⟨start, rfl⟩
  exact Statement.breaking_means start

theorem reads_continuing : Reads (sentence fuel self) (text "continue" ++ ';' :: t)
    (fun s => Statement.Means true s (.continuing nowhere)) (skip t) := by
  have hword : wordStart (text "continue" ++ ';' :: t) = text "continue" :=
    wordStart_keyword (by decide) rfl t
  refine ((reads_jump (by decide)).mono ?_).keyword (n := 8) rfl hword (by decide) (by decide)
  rintro _ ⟨start, rfl⟩
  exact Statement.continuing_means start

theorem reads_returning : Reads (sentence fuel self) (text "return" ++ ';' :: t)
    (fun s => Statement.Means inLoop s (.returning nowhere none)) (skip t) := by
  have hword : wordStart (text "return" ++ ';' :: t) = text "return" :=
    wordStart_keyword (by decide) rfl t
  have hkeyword := reads_word hword
  rw [skip_cons_of_token rfl (by decide)] at hkeyword
  refine Reads.keyword (n := 6) ?_ rfl hword (by decide) (by decide)
  refine (Reads.bind (reads_place fun _ => trivial) fun start _ => ?_).part
  refine hkeyword.part.bind fun _ _ => ?_
  refine (fails_phrase (by decide) t fuel).optional.bind ?_
  rintro _ rfl
  exact (reads_sign ';' t).bind fun _ _ => reads_pure (Statement.returning_means start)

theorem ReadsPhrase.reads_returning {written : Text} (h : ReadsPhrase (expression fuel) room written e)
    (hroom : room ≤ Program.maxDepth) :
    Reads (sentence fuel self) (text "return" ++ ' ' :: (written ++ ';' :: t))
      (fun s => Statement.Means inLoop s (.returning nowhere (some e))) (skip t) := by
  have hword : wordStart (text "return" ++ ' ' :: (written ++ ';' :: t)) = text "return" :=
    wordStart_keyword (by decide) rfl _
  have hkeyword := reads_word hword
  rw [skip_space, h.skip] at hkeyword
  refine Reads.keyword (n := 6) ?_ rfl hword (by decide) (by decide)
  refine (Reads.bind (reads_place fun _ => trivial) fun start _ => ?_).part
  refine hkeyword.part.bind fun _ _ => ?_
  refine (h.reads ';' (by decide) t).optional.bind ?_
  rintro _ ⟨p, rfl, hp⟩
  exact (reads_sign ';' t).bind fun _ _ =>
    reads_pure (Statement.returning_some_means hp hroom start)

/-! ## Blocks -/

/-- The sentence is a block of sentences that mean the commands. -/
def IsBlock (inLoop : Bool) (cs : List Command) (s : Sentence) : Prop :=
  ∃ ss, s = .block ss ∧ List.Forall₂ (fun c s => Statement.Means inLoop s c) cs ss

theorem IsBlock.becomes {s : Sentence} (h : IsBlock inLoop cs s) :
    Statement.Becomes inLoop s (.block cs) := by
  obtain ⟨ss, rfl, hss⟩ := h
  exact Statement.block_becomes hss

theorem IsBlock.means {s : Sentence} (h : IsBlock inLoop cs s) :
    Statement.Means inLoop s (.block cs) := h.becomes.means

theorem reads_braces (h : ReadsBlock self inLoop (skip mid) cs ('\x7d' :: t))
    (hfuel : cs.length ≤ fuel) :
    Reads (braces fuel self) ('\x7b' :: mid)
      (List.Forall₂ (fun c s => Statement.Means inLoop s c) cs) (skip t) := by
  refine ((reads_sign '\x7b' mid).bind fun _ _ => ?_).part
  refine (h.many hfuel).bind fun body hbody => ?_
  exact (reads_sign '\x7d' t).bind fun _ _ => reads_pure hbody

theorem reads_block (h : ReadsBlock self inLoop (skip mid) cs ('\x7d' :: t))
    (hfuel : cs.length ≤ fuel) :
    Reads (sentence fuel self) ('\x7b' :: mid) (IsBlock inLoop cs) (skip t) := by
  refine Reads.oneOf ?_ [] (by simp)
  exact (reads_braces h hfuel).bind fun ss hss => reads_pure ⟨ss, rfl, hss⟩

/-! ## Sentences with blocks -/

/-- A phrase in parentheses behind a keyword. -/
theorem ReadsPhrase.reads_tested {w written : Text} (h : ReadsPhrase (expression fuel) room written e)
    (hw : w.all Text.isIdentifierChar = true) :
    Reads (tested fuel w) (w ++ ' ' :: '(' :: (written ++ ')' :: t)) (fun p => p.Means room e)
      (skip t) := by
  have hkeyword := reads_word (wordStart_keyword (c := ' ') hw rfl ('(' :: (written ++ ')' :: t)))
  rw [skip_space, skip_cons_of_token rfl (by decide)] at hkeyword
  have hopen := reads_sign '(' (written ++ ')' :: t)
  rw [h.skip] at hopen
  refine hkeyword.part.bind fun _ _ => ?_
  refine hopen.bind fun _ _ => ?_
  refine (h.reads ')' (by decide) t).bind fun test htest => ?_
  exact (reads_sign ')' t).bind fun _ _ => reads_pure htest

/-- A conditional loop. -/
theorem ReadsPhrase.reads_whileLoop {written : Text} (h : ReadsPhrase (expression fuel) room written e)
    (hroom : room ≤ Program.maxDepth) (hbody : Reads self (skip t) (IsBlock true cs) rest) :
    Reads (sentence fuel self) (text "while" ++ ' ' :: '(' :: (written ++ ')' :: t))
      (fun s => Statement.Means inLoop s (.whileLoop e (.block cs))) rest := by
  have hword : wordStart (text "while" ++ ' ' :: '(' :: (written ++ ')' :: t)) = text "while" :=
    wordStart_keyword (by decide) rfl _
  refine Reads.keyword (n := 3) ?_ rfl hword (by decide) (by decide)
  refine ((h.reads_tested (by decide)).bind fun test htest => ?_).part
  exact hbody.bind fun body hbody =>
    reads_pure (Statement.whileLoop_means htest hroom hbody.means)

/-- What an `else` leads to, if there is one: nothing, or a sentence that means a command. -/
def IsAlternative (inLoop : Bool) : Option Command → Option Sentence → Prop
  | none, s => s = none
  | some c, s => ∃ s', s = some s' ∧ Statement.Means inLoop s' c

/-- A conditional sentence. -/
theorem ReadsPhrase.reads_branch {written : Text} {no : Option Command}
    (h : ReadsPhrase (expression fuel) room written e) (hroom : room ≤ Program.maxDepth)
    (hyes : Reads self (skip t) (IsBlock inLoop cs) mid)
    (hno : Reads (optional (do Reader.part (word (text "else")); self)) mid
      (IsAlternative inLoop no) rest) :
    Reads (sentence fuel self) (text "if" ++ ' ' :: '(' :: (written ++ ')' :: t))
      (fun s => Statement.Means inLoop s (.branch e (.block cs) no)) rest := by
  have hword : wordStart (text "if" ++ ' ' :: '(' :: (written ++ ')' :: t)) = text "if" :=
    wordStart_keyword (by decide) rfl _
  refine Reads.keyword (n := 2) ?_ rfl hword (by decide) (by decide)
  refine ((h.reads_tested (by decide)).bind fun test htest => ?_).part
  refine hyes.bind fun yes hyes => ?_
  refine hno.bind fun other hother => reads_pure ?_
  cases no with
  | none =>
    obtain rfl : other = none := hother
    exact Statement.branch_means htest hroom hyes.means
  | some c =>
    obtain ⟨s, rfl, hs⟩ := hother
    exact Statement.branch_else_means htest hroom hyes.means hs

/-- Where no `else` follows, there is no alternative. -/
theorem reads_no_alternative (h : wordStart t ≠ text "else") :
    Reads (optional (do Reader.part (word (text "else")); self)) t (IsAlternative inLoop none) t :=
  ((fails_word h).part.bind.optional).mono fun _ hnone => hnone

/-- The alternative behind an `else`. -/
theorem reads_alternative {c : Command}
    (h : Reads self (skip t) (fun s => Statement.Means inLoop s c) rest) :
    Reads (optional (do Reader.part (word (text "else")); self)) (text "else" ++ ' ' :: t)
      (IsAlternative inLoop (some c)) rest := by
  have hkeyword := reads_word (wordStart_keyword (w := text "else") (c := ' ') (by decide) rfl t)
  rw [skip_space] at hkeyword
  exact (hkeyword.part.bind fun _ _ => h).optional.mono fun _ hsome => hsome

/-- A name with the value that it is declared with. -/
theorem ReadsPhrase.reads_declarator {name written : Text} (h : ReadsPhrase (expression fuel) room written e)
    (hname : IsIdentifier name) :
    Reads (declarator fuel) (name ++ ' ' :: '=' :: ' ' :: (written ++ ';' :: t))
      (fun d => ∃ place p, d = ⟨place, name, some p⟩ ∧ p.Means room e) (';' :: t) := by
  have hends : EndsWord (' ' :: '=' :: ' ' :: (written ++ ';' :: t)) := by
    rintro _ ⟨⟩
    rfl
  have hidentifier := reads_token (identifier?_eq_some hname hends)
  rw [skip_space, skip_cons_of_token rfl (by decide)] at hidentifier
  have hequals := reads_sign '=' (' ' :: (written ++ ';' :: t))
  rw [skip_space, h.skip] at hequals
  refine (Reads.bind (reads_place fun _ => trivial) fun place _ => ?_).part
  refine hidentifier.part.bind ?_
  rintro _ rfl
  refine Reads.bind (hequals.bind fun _ _ => h.reads ';' (by decide) t).optional ?_
  rintro _ ⟨p, rfl, hp⟩
  exact reads_pure ⟨place, p, rfl, hp⟩

/-- The variable of a counting loop, with its first value. -/
theorem ReadsPhrase.reads_loopStart {name written : Text} (h : ReadsPhrase (expression fuel) room written e)
    (hname : IsIdentifier name) :
    Reads (loopStart fuel) (text "let" ++ ' ' :: (name ++ ' ' :: '=' :: ' ' :: (written ++ ';' :: t)))
      (fun start => ∃ place p, start = .declaration .let [⟨place, name, some p⟩] ∧ p.Means room e)
      (';' :: t) := by
  have hkind : Token.wordOf? [(text "let", BindingKind.let), (text "const", .const),
      (text "var", .var)] (text "let" ++ ' ' :: (name ++ ' ' :: '=' :: ' ' :: (written ++ ';' :: t)))
        = some (.let, (text "let").length) := rfl
  have hkeyword := reads_token hkind
  rw [skip_space, hname.skip_append] at hkeyword
  -- no comma follows, so the list has one declarator
  have hothers : ReadsAll (do sign ','; declarator fuel) (fun (_ : Unit) _ => True) (';' :: t) []
      (';' :: t) := .nil (fails_sign (by simp)).bind
  have hlist : Reads (commaList fuel (declarator fuel))
      (name ++ ' ' :: '=' :: ' ' :: (written ++ ';' :: t))
      (fun ds => ∃ place p, ds = [⟨place, name, some p⟩] ∧ p.Means room e) (';' :: t) := by
    refine (h.reads_declarator hname).bind ?_
    rintro _ ⟨place, p, rfl, hp⟩
    refine (hothers.many (Nat.zero_le fuel)).bind fun others hnone => ?_
    obtain rfl := List.forall₂_nil_left_iff.1 hnone
    exact reads_pure ⟨place, p, rfl, hp⟩
  have hdeclaration : Reads (declaration fuel)
      (text "let" ++ ' ' :: (name ++ ' ' :: '=' :: ' ' :: (written ++ ';' :: t)))
      (fun d => ∃ place p, d = (.let, [⟨place, name, some p⟩]) ∧ p.Means room e) (';' :: t) := by
    refine (hkeyword.part.bind ?_).part
    rintro _ rfl
    refine hlist.bind ?_
    rintro _ ⟨place, p, rfl, hp⟩
    exact reads_pure ⟨place, p, rfl, hp⟩
  refine (Reads.orElse (hdeclaration.bind ?_)).part
  rintro _ ⟨place, p, rfl, hp⟩
  exact reads_pure ⟨place, p, rfl, hp⟩

/-- A counting loop. -/
theorem reads_forLoop {name first test update : Text} {e' e'' : Expression} {c : Command}
    (hname : IsIdentifier name) (hfirst : ReadsPhrase (expression fuel) room first e)
    (htest : ReadsPhrase (expression fuel) room test e') (hupdate : ReadsPhrase (expression fuel) room update e'')
    (hroom : room ≤ Program.maxDepth)
    (hbody : Reads self (skip t) (fun s => Statement.Becomes true s c) rest) :
    Reads (sentence fuel self)
      (text "for" ++ ' ' :: '(' :: (text "let" ++ ' ' :: (name ++ ' ' :: '=' :: ' ' ::
        (first ++ ';' :: ' ' :: (test ++ ';' :: ' ' :: (update ++ ')' :: t))))))
      (fun s => Statement.Becomes inLoop s (.forLoop nowhere
        (some (.declaration .let [⟨nowhere, name, some e⟩])) (some e') (some e'') c)) rest := by
  -- the clauses behind the one that is read are kept closed
  generalize hlast : update ++ ')' :: t = last
  generalize hmiddle : test ++ ';' :: ' ' :: last = middle
  have hword : wordStart (text "for" ++ ' ' :: '(' :: (text "let" ++ ' ' :: (name ++ ' ' :: '=' ::
      ' ' :: (first ++ ';' :: ' ' :: middle)))) = text "for" := wordStart_keyword (by decide) rfl _
  have hkeyword := reads_word hword
  rw [skip_space, skip_cons_of_token rfl (by decide)] at hkeyword
  have hopen := reads_sign '(' (text "let" ++ ' ' :: (name ++ ' ' :: '=' :: ' ' ::
    (first ++ ';' :: ' ' :: middle)))
  rw [show skip (text "let" ++ ' ' :: (name ++ ' ' :: '=' :: ' ' :: (first ++ ';' :: ' ' :: middle)))
      = text "let" ++ ' ' :: (name ++ ' ' :: '=' :: ' ' :: (first ++ ';' :: ' ' :: middle)) from
    skip_cons_of_token rfl (by decide) _] at hopen
  have hbefore := reads_sign ';' (' ' :: middle)
  rw [skip_space, ← hmiddle, htest.skip, hmiddle] at hbefore
  have hbehind := reads_sign ';' (' ' :: last)
  rw [skip_space, ← hlast, hupdate.skip, hlast] at hbehind
  have htest' := htest.reads ';' (by decide) (' ' :: last)
  rw [hmiddle] at htest'
  have hupdate' := hupdate.reads ')' (by decide) t
  rw [hlast] at hupdate'
  refine Reads.keyword (n := 4) ?_ rfl hword (by decide) (by decide)
  refine (Reads.bind (reads_place fun _ => trivial) fun start _ => ?_).part
  refine hkeyword.part.bind fun _ _ => ?_
  refine hopen.bind fun _ _ => ?_
  refine (hfirst.reads_loopStart hname).optional.bind ?_
  rintro _ ⟨_, rfl, namePlace, p, rfl, hp⟩
  refine hbefore.bind fun _ _ => ?_
  refine htest'.optional.bind ?_
  rintro _ ⟨q, rfl, hq⟩
  refine hbehind.bind fun _ _ => ?_
  refine hupdate'.optional.bind ?_
  rintro _ ⟨r, rfl, hr⟩
  refine (reads_sign ')' t).bind fun _ _ => ?_
  exact hbody.bind fun body hbody =>
    reads_pure (Statement.forLoop_becomes hp hq hr hroom hbody start namePlace name)

/-! ## Functions -/

/-- The sentence is a function whose body means the commands. -/
def IsFunction (name : Text) (parameters : List Text) (isAsync : Bool) (cs : List Command)
    (s : Sentence) : Prop :=
  ∃ start namePlace ss, s = .function start name namePlace parameters isAsync ss ∧
    List.Forall₂ (fun c s => Statement.Means false s c) cs ss

theorem IsFunction.means {name : Text} {parameters : List Text} {isAsync : Bool} {s : Sentence}
    (h : IsFunction name parameters isAsync cs s) :
    Statement.Means inLoop s (.function nowhere name nowhere parameters isAsync cs) := by
  obtain ⟨start, namePlace, ss, rfl, hss⟩ := h
  exact Statement.function_means hss start namePlace name parameters isAsync

section

variable {name : Text} {parameters : List Text}

theorem reads_functionMark (isAsync : Bool) (t : Text) :
    Reads (optional (Reader.part (word (text "async"))))
      ((if isAsync then text "async" ++ [' '] else []) ++ text "function" ++ ' ' :: t)
      (fun mark => mark.isSome = isAsync) (text "function" ++ ' ' :: t) := by
  cases isAsync with
  | true =>
    have hasync := reads_word (wordStart_keyword (w := text "async") (c := ' ') (by decide) rfl
      (text "function" ++ ' ' :: t))
    rw [skip_space, show skip (text "function" ++ ' ' :: t) = text "function" ++ ' ' :: t from
      skip_cons_of_token rfl (by decide) _] at hasync
    refine hasync.part.optional.mono ?_
    rintro _ ⟨_, rfl, -⟩
    rfl
  | false =>
    refine (fails_word ?_).part.optional.mono ?_
    · rw [wordStart_keyword (by decide) rfl t]
      decide
    · rintro _ rfl
      rfl

theorem reads_functionWord (hname : IsIdentifier name) (t : Text) :
    Reads (Reader.part (word (text "function"))) (text "function" ++ ' ' :: (name ++ t))
      (fun _ => True) (name ++ t) := by
  have hkeyword := reads_word (wordStart_keyword (w := text "function") (c := ' ') (by decide) rfl
    (name ++ t))
  rw [skip_space, hname.skip_append] at hkeyword
  exact hkeyword.part

theorem reads_functionName (hname : IsIdentifier name) (t : Text) :
    Reads (Reader.part (token Token.identifier?)) (name ++ '(' :: t) (· = name) ('(' :: t) := by
  have hopen : EndsWord ('(' :: t) := by
    rintro _ ⟨⟩
    rfl
  have hidentifier := reads_token (identifier?_eq_some hname hopen)
  rw [skip_cons_of_token rfl (by decide)] at hidentifier
  exact hidentifier.part

theorem reads_parameters (hparameters : ∀ p ∈ parameters, IsIdentifier p)
    (hcount : parameters.length ≤ fuel) (t : Text) :
    Reads (Grammar.parameters fuel)
      ('(' :: (Text.join (text ", ") parameters ++ ')' :: ' ' :: '\x7b' :: t))
      (fun names => parameters = names) ('\x7b' :: t) := by
  -- a parameter ends at the comma or the parenthesis behind it
  have hitems : ∀ p ∈ parameters, ReadsItem (Reader.part (token Token.identifier?))
      (fun p found => p = found) p p := by
    intro p hp
    refine ⟨(hparameters p hp).skip_append, fun c hc t => ?_⟩
    have hends := (endsPhrase_closer hc t).word
    have h := reads_token (identifier?_eq_some (hparameters p hp) hends)
    rw [skip_closer hc] at h
    exact h.part.mono fun _ heq => heq.symm
  have hlist := reads_parenthesized id hitems
    (fun t => (fails_token rfl).part) hcount (' ' :: '\x7b' :: t)
  rw [List.map_id, skip_space, skip_cons_of_token rfl (by decide)] at hlist
  exact hlist.part.mono fun _ hnames => List.forall₂_eq_eq_eq ▸ hnames

end

/-- A function, with or without the mark of one that waits. -/
theorem reads_function {name : Text} {parameters : List Text} (isAsync : Bool)
    (hname : IsIdentifier name) (hparameters : ∀ p ∈ parameters, IsIdentifier p)
    (hcount : parameters.length ≤ fuel)
    (hbody : ReadsBlock self false (skip mid) cs ('\x7d' :: t)) (hfuel : cs.length ≤ fuel) :
    Reads (sentence fuel self)
      ((if isAsync then text "async" ++ [' '] else []) ++ text "function" ++ ' ' :: (name ++
        '(' :: (Text.join (text ", ") parameters ++ ')' :: ' ' :: '\x7b' :: mid)))
      (IsFunction name parameters isAsync cs) (skip t) := by
  have hlist := reads_parameters hparameters hcount mid
  have hidentifier := reads_functionName hname
    (Text.join (text ", ") parameters ++ ')' :: ' ' :: '\x7b' :: mid)
  generalize '(' :: (Text.join (text ", ") parameters ++ ')' :: ' ' :: '\x7b' :: mid) = list
    at hlist hidentifier
  have hfunction : Reads (Grammar.function fuel self)
      ((if isAsync then text "async" ++ [' '] else []) ++ text "function" ++ ' ' :: (name ++ list))
      (IsFunction name parameters isAsync cs) (skip t) := by
    refine (Reads.bind (reads_place fun _ => trivial) fun start _ => ?_).part
    refine (reads_functionMark isAsync (name ++ list)).bind ?_
    rintro mark rfl
    refine (reads_functionWord hname list).bind fun _ _ => ?_
    refine Reads.bind (reads_place fun _ => trivial) fun namePlace _ => ?_
    refine hidentifier.bind ?_
    rintro _ rfl
    refine hlist.bind ?_
    rintro _ rfl
    exact (reads_braces hbody hfuel).bind fun ss hss => reads_pure ⟨start, namePlace, ss, rfl, hss⟩
  -- the sentence is chosen by its first word
  cases isAsync with
  | true =>
    have hword := wordStart_keyword (w := text "async") (c := ' ') (by decide) rfl
      (text "function" ++ ' ' :: (name ++ list))
    exact hfunction.keyword (n := 1) rfl hword (by decide) (by decide)
  | false =>
    have hword := wordStart_keyword (w := text "function") (c := ' ') (by decide) rfl (name ++ list)
    exact hfunction.keyword (n := 1) rfl hword (by decide) (by decide)

/-! ## Scripts -/

/-- A script is read as the sentences that its text is read as, up to the end. -/
theorem read_eq_ok {β : Type} {rel : β → Sentence → Prop} {bs : List β} (hskip : skip t = t)
    (h : ReadsAll (statement (t.length + 1) (t.length + 1)) rel t bs [])
    (hcount : bs.length ≤ t.length + 1) : ∃ ss, read t = .ok ss ∧ List.Forall₂ rel bs ss := by
  have hprogram : Reads (program (t.length + 1)) t (List.Forall₂ rel bs) [] := by
    refine (h.many hcount).bind fun ss hss => ?_
    have hfinished : Reads finished [] (fun _ => True) [] := fun offset => ⟨(), offset, 0, rfl, trivial⟩
    exact hfinished.part.bind fun _ _ => reads_pure hss
  obtain ⟨ss, offset, reach, hread, hss⟩ := hprogram (0 + gapLength 0 t)
  refine ⟨ss, ?_, hss⟩
  unfold read
  rw [Cursor.ofText_of_skip hskip, hread]

end

end Pseudocode.Script
