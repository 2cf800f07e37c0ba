import Pseudocode.Proofs.Meaning
import Pseudocode.Proofs.OperatorSigns
import Pseudocode.Proofs.Reading
import Pseudocode.Proofs.ShortestDigits
import Pseudocode.Proofs.Text

/-!
# Reading phrases

A phrase ends where the text behind it gives none of the readers a reason to go on. `EndsToken`,
`EndsOperand`, `EndsBinary` and `EndsPhrase` say so for the readers of tokens, of operands with
their suffixes, of binary operators and of whole phrases; each of them includes the one before it.

With what follows it fixed in this way, the text of an operand, of a comparison, of a choice, of an
assignment and of a call is read as the phrase that means it.
-/

namespace Pseudocode.Script

open Reader Grammar

/-! ## Ends -/

/-- No token goes on at the beginning of the text. -/
structure EndsToken (t : Text) : Prop where
  word : EndsWord t
  point : t.head? ≠ some '.'

/-- No suffix makes a longer operand. -/
structure EndsOperand (t : Text) : Prop extends EndsToken t where
  suffix : ∀ c ∈ (skip t).head?, c ∉ ['(', '[', '.']

/-- No binary operator makes a longer phrase. -/
structure EndsBinary (t : Text) : Prop extends EndsOperand t where
  operator : ∀ level, Token.binaryOperator? level (skip t) = none

/-- Nothing makes a longer phrase. -/
structure EndsPhrase (t : Text) : Prop extends EndsBinary t where
  choice : (skip t).head? ≠ some '?'
  assignment : Token.assignmentOperator? (skip t) = none

/-- The characters that end a phrase. -/
def closers : List Char := [')', ']', ';', ',', ':', '\x7d']

/-- An operator is read at its own level. -/
theorem binaryOperator?_sign (operator : BinaryOperator) (t : Text) :
    Token.binaryOperator? operator.level (operator.sign ++ ' ' :: t)
      = some (operator, operator.sign.length) := by
  cases operator <;> rfl

/-- The levels of the binary operators, from the loosest to the tightest. -/
def binaryLevels : List Level := [3, 4, 5, 6, 7, 8]

/-- An operator is not read at a level that binds tighter. -/
theorem binaryOperator?_sign_above {operator : BinaryOperator} {level : Level}
    (hlevel : level ∈ binaryLevels) (h : operator.level < level) (t : Text) :
    Token.binaryOperator? level (operator.sign ++ ' ' :: t) = none := by
  fin_cases hlevel <;> cases operator <;> first | rfl | exact absurd h (by decide)

theorem skip_closer {c : Char} (h : c ∈ closers) (t : Text) : skip (c :: t) = c :: t := by
  refine skip_cons_of_token ?_ ?_ t <;> fin_cases h <;> decide

theorem endsPhrase_closer {c : Char} (h : c ∈ closers) (t : Text) : EndsPhrase (c :: t) := by
  have hskip := skip_closer h t
  have hstart : c ∉ operatorStarts := by fin_cases h <;> decide
  have hsuffix : c ∉ ['(', '[', '.'] := by fin_cases h <;> decide
  -- one goal for each way in which a phrase could go on
  refine ⟨⟨⟨⟨?_, ?_⟩, ?_⟩, ?_⟩, ?_, ?_⟩
  · rintro d ⟨⟩
    fin_cases h <;> decide
  · fin_cases h <;> simp
  · rw [hskip]
    rintro d ⟨⟩
    exact hsuffix
  · rw [hskip]
    exact fun level => binaryOperator?_eq_none hstart level t
  · rw [hskip]
    fin_cases h <;> simp
  · rw [hskip]
    exact assignmentOperator?_eq_none hstart t

/-! ### Behind a space -/

/-- A space and an operator end an operand. -/
theorem endsOperand_space {c : Char} (hgap : isGap c = false) (hsign : c ∉ ['/', '(', '[', '.'])
    (t : Text) : EndsOperand (' ' :: c :: t) := by
  refine ⟨⟨?_, by simp⟩, ?_⟩
  · rintro _ ⟨⟩
    rfl
  · rw [skip_space, skip_cons_of_token hgap (fun h => hsign (by simp [h]))]
    rintro _ ⟨⟩
    exact fun h => hsign (List.mem_cons_of_mem _ h)

/-- A space and a sign that is neither an operator nor a suffix end a phrase of binary operators. -/
theorem endsBinary_space {c : Char} (hgap : isGap c = false) (hsign : c ∉ ['/', '(', '[', '.'])
    (hoperator : c ∉ operatorStarts) (t : Text) : EndsBinary (' ' :: c :: t) := by
  refine ⟨endsOperand_space hgap hsign t, fun level => ?_⟩
  rw [skip_space, skip_cons_of_token hgap (fun h => hsign (by simp [h]))]
  exact binaryOperator?_eq_none hoperator level t

/-- A space and a sign that ends phrases. -/
theorem endsPhrase_space {c : Char} (h : c ∈ closers) (t : Text) : EndsPhrase (' ' :: c :: t) := by
  have hends := endsPhrase_closer h t
  have hbinary : EndsBinary (' ' :: c :: t) := by
    apply endsBinary_space <;> fin_cases h <;> decide
  refine ⟨hbinary, ?_, ?_⟩ <;> rw [skip_space]
  · exact hends.choice
  · exact hends.assignment

theorem skip_assignment (operator : AssignmentOperator) (t : Text) :
    skip (' ' :: (operator.sign ++ ' ' :: t)) = operator.sign ++ ' ' :: t := by
  cases operator <;> rfl

/-- A space and an operator that assigns end a phrase of binary operators. -/
theorem endsBinary_assignment (operator : AssignmentOperator) (t : Text) :
    EndsBinary (' ' :: (operator.sign ++ ' ' :: t)) := by
  have hskip := skip_assignment operator t
  refine ⟨⟨⟨?_, by simp⟩, ?_⟩, fun level => ?_⟩
  · rintro _ ⟨⟩
    rfl
  · rw [hskip]
    cases operator <;> (rintro _ ⟨⟩; decide)
  · rw [hskip]
    exact binaryOperator?_eq_none_of_assignment
      (assignmentOperator?_eq_some_iff.2 ⟨rfl, _, rfl, by simp⟩) level

/-! ## Operands -/

section

variable {fuel : Nat} {self : Reader Phrase} {t rest : Text} {P Q : Phrase → Prop}

theorem fails_suffix (h : ∀ c ∈ t.head?, c ∉ ['(', '[', '.']) (object : Phrase) :
    Fails (suffix fuel self object) t := by
  have hsign (c : Char) (hc : c ∈ ['(', '[', '.']) : Fails (sign c) t :=
    fails_sign fun hhead => h c hhead hc
  refine (reads_place fun _ => trivial).bind_fails fun start _ => fails_oneOf fun r hr => ?_
  fin_cases hr
  · exact (hsign '(' (by decide)).bind.part.bind
  · exact (hsign '[' (by decide)).bind.part
  · exact (hsign '.' (by decide)).bind.part

/-- An operator before an operand, with its place. -/
def operatorBefore : Reader (Nat × UnaryOperator) :=
  Reader.part (do return (← place, ← token Token.unaryOperator?))

theorem fails_operatorBefore (h : Token.unaryOperator? t = none) : Fails operatorBefore t :=
  ((reads_place fun _ => trivial).bind_fails fun _ _ => (fails_token h).bind).part

/-- An operand without an operator before it. -/
theorem Reader.Reads.unary (h : Reads (suffixed fuel self) t P rest)
    (hunary : Token.unaryOperator? t = none) : Reads (unary fuel self) t P rest := by
  have hnone : ReadsAll operatorBefore (fun (_ : Unit) _ => True) t [] t :=
    .nil (fails_operatorBefore hunary)
  have hoperators := hnone.many (Nat.zero_le fuel)
  refine (hoperators.bind fun operators hnone => ?_).part
  obtain rfl := List.forall₂_nil_left_iff.1 hnone
  exact Reads.bind h fun operand hoperand => reads_pure hoperand

/-- An operand is complete where it ends. -/
theorem EndsOperand.reads_unary {w : Text} (h : EndsOperand t)
    (hunary : Token.unaryOperator? (w ++ t) = none)
    (hprimary : Reads (primary fuel self) (w ++ t) P (skip t)) :
    Reads (unary fuel self) (w ++ t) P (skip t) := by
  refine Reads.unary (hprimary.bind fun operand hoperand => ?_).part hunary
  exact reads_iterate_stop (fails_suffix h.suffix operand) hoperand

/-! ## Operators -/

/-- What makes a longer phrase of the left operand: an operator of the level and a right operand. -/
def link (level : Level) (operand : Reader Phrase) (left : Phrase) : Reader Phrase := do
  let start ← place
  let operator ← Reader.part (token (Token.binaryOperator? level))
  return .binary left start operator (← operand)

theorem reads_operator {operand : Reader Phrase} {left : Phrase} {mid : Text}
    (operator : BinaryOperator) (hright : Reads operand (skip mid) P rest)
    (hbinary : ∀ start right, P right → Q (.binary left start operator right)) :
    Reads (link operator.level operand left) (operator.sign ++ ' ' :: mid) Q rest := by
  have hoperator := reads_token (binaryOperator?_sign operator mid)
  rw [skip_space] at hoperator
  refine Reads.bind (reads_place fun _ => trivial) fun start _ => ?_
  refine Reads.bind hoperator.part ?_
  rintro operator rfl
  exact hright.bind fun right hp => reads_pure (hbinary start right hp)

theorem fails_operator {operand : Reader Phrase} {level : Level} (left : Phrase)
    (hnone : Token.binaryOperator? level t = none) : Fails (link level operand left) t :=
  (reads_place fun _ => trivial).bind_fails fun _ _ => (fails_token hnone).part.bind

/-- A level leaves a phrase alone where none of its operators follows. -/
theorem reads_chain {operand : Reader Phrase} {level : Level} (h : Reads operand t P rest)
    (hnone : Token.binaryOperator? level rest = none) :
    Reads (chain fuel level operand) t P rest := by
  exact (h.bind fun left hleft => reads_iterate_stop (fails_operator left hnone) hleft).part

/-- So do all levels where no operator follows. -/
theorem reads_chains {operand : Reader Phrase} (levels : List Level) (h : Reads operand t P rest)
    (hnone : ∀ level ∈ levels, Token.binaryOperator? level rest = none) :
    Reads (levels.foldr (fun level operand => chain fuel level operand) operand) t P rest := by
  induction levels with
  | nil => exact h
  | cons level levels ih =>
    rw [List.foldr_cons]
    exact reads_chain (ih fun l hl => hnone l (List.mem_cons_of_mem _ hl)) (hnone level (by simp))

theorem fails_chains {operand : Reader Phrase} (levels : List Level) (h : Fails operand t) :
    Fails (levels.foldr (fun level operand => chain fuel level operand) operand) t := by
  induction levels with
  | nil => exact h
  | cons level levels ih =>
    rw [List.foldr_cons]
    exact ih.bind.part

/-- Two operands with an operator between them, read at the level of the operator. -/
theorem reads_link {operand : Reader Phrase} {left right : Nat} {e f : Expression} {mid : Text}
    (operator : BinaryOperator)
    (hleft : Reads operand t (fun p => p.Means left e) (operator.sign ++ ' ' :: mid))
    (hright : Reads operand (skip mid) (fun p => p.Means right f) rest)
    (hnone : Token.binaryOperator? operator.level rest = none) (hfuel : 0 < fuel) :
    Reads (chain fuel operator.level operand) t
      (fun p => p.Means (max left right + 12) (.binary nowhere operator e f)) rest := by
  obtain ⟨fuel, rfl⟩ : ∃ n, fuel = n + 1 := ⟨fuel - 1, by omega⟩
  refine (hleft.bind fun p hp => ?_).part
  -- the first round reads the operator and its right operand, and a second one finds nothing
  refine Reads.iterate (P := fun p => p.Means (max left right + 12) (.binary nowhere operator e f))
    (reads_operator operator hright fun start _ hq => hp.binary hq start operator) ?_
  exact fun q hq => reads_iterate_stop (fails_operator q hnone) hq

/-- Two operands with an operator between them, read as a phrase of binary operators. -/
theorem reads_binary {left right : Nat} {e f : Expression} {mid : Text} (operator : BinaryOperator)
    (hleft : Reads (unary fuel self) t (fun p => p.Means left e) (operator.sign ++ ' ' :: mid))
    (hright : Reads (unary fuel self) (skip mid) (fun p => p.Means right f) rest)
    (hnone : ∀ level, Token.binaryOperator? level rest = none) (hfuel : 0 < fuel) :
    Reads (binary fuel self) t
      (fun p => p.Means (max left right + 12) (.binary nowhere operator e f)) rest := by
  -- the looser levels and the tighter ones are passed without a link
  obtain ⟨above, below, hlevels, hbelow⟩ : ∃ above below,
      binaryLevels = above ++ operator.level :: below ∧ ∀ level ∈ below, operator.level < level := by
    cases operator
    case or => exact ⟨[], [4, 5, 6, 7, 8], rfl, by decide⟩
    case and => exact ⟨[3], [5, 6, 7, 8], rfl, by decide⟩
    case equal | notEqual | strictEqual | strictNotEqual =>
      exact ⟨[3, 4], [6, 7, 8], rfl, by decide⟩
    case less | lessEqual | greater | greaterEqual => exact ⟨[3, 4, 5], [7, 8], rfl, by decide⟩
    case add | subtract => exact ⟨[3, 4, 5, 6], [8], rfl, by decide⟩
    case multiply | divide | remainder => exact ⟨[3, 4, 5, 6, 7], [], rfl, by decide⟩
  show Reads (binaryLevels.foldr (fun level operand => chain fuel level operand) (unary fuel self))
    t _ rest
  rw [hlevels, List.foldr_append, List.foldr_cons]
  refine reads_chains above ?_ fun level _ => hnone level
  refine reads_link operator (reads_chains below hleft fun level hlevel => ?_)
    (reads_chains below hright fun level _ => hnone level) (hnone _) hfuel
  exact binaryOperator?_sign_above (by rw [hlevels]; simp [hlevel]) (hbelow level hlevel) mid

/-- An operand by itself, read as a phrase of binary operators. -/
theorem reads_binary_operand (h : Reads (unary fuel self) t P rest)
    (hnone : ∀ level, Token.binaryOperator? level rest = none) : Reads (binary fuel self) t P rest :=
  reads_chains binaryLevels h fun level _ => hnone level

/-! ## Phrases -/

theorem Reader.Reads.conditional (h : Reads (binary fuel self) t P rest) (hchoice : rest.head? ≠ some '?') :
    Reads (conditional fuel self) t P rest := by
  refine (h.bind fun p hp => (fails_sign hchoice).bind.optional.bind ?_).part
  rintro _ rfl
  exact reads_pure hp

theorem Reader.Reads.assignment (h : Reads (Grammar.conditional fuel self) t P rest)
    (hassignment : Token.assignmentOperator? rest = none) :
    Reads (assignment fuel self) t P rest := by
  refine (h.bind fun p hp => (fails_token hassignment).part.bind.optional.bind ?_).part
  rintro _ rfl
  exact reads_pure hp

/-- A phrase of binary operators is a whole phrase where nothing makes it longer. -/
theorem EndsPhrase.reads_phrase {depth : Nat} {w : Text} (h : EndsPhrase t)
    (hbinary : Reads (binary fuel (phrase fuel depth)) w P (skip t)) :
    Reads (phrase fuel (depth + 1)) w P (skip t) :=
  (hbinary.conditional h.choice).assignment h.assignment

/-- So is one before a character that ends phrases. -/
theorem reads_phrase_closer {depth : Nat} {w : Text} {c : Char} (hc : c ∈ closers)
    (hbinary : Reads (binary fuel (phrase fuel depth)) w P (skip (c :: t))) :
    Reads (phrase fuel (depth + 1)) w P (c :: t) := by
  have h := (endsPhrase_closer hc t).reads_phrase hbinary
  rwa [skip_closer hc] at h

/-! ## Names, numbers and strings -/

/-- No character of a word is white space or begins a comment. -/
theorem isGap_of_isIdentifierChar {c : Char} (h : Text.isIdentifierChar c = true) :
    isGap c = false ∧ c ≠ '/' := by
  have hne (d : Char) (hd : Text.isIdentifierChar d = false) : c ≠ d := by
    rintro rfl
    rw [h] at hd
    exact absurd hd (by decide)
  refine ⟨?_, hne '/' rfl⟩
  simp [isGap, hne ' ' rfl, hne '\t' rfl, hne '\r' rfl, hne '\n' rfl]

theorem skip_cons_of_isIdentifierChar {c : Char} (h : Text.isIdentifierChar c = true) (t : Text) :
    skip (c :: t) = c :: t :=
  skip_cons_of_token (isGap_of_isIdentifierChar h).1 (isGap_of_isIdentifierChar h).2 t

/-- A name of the script. -/
structure IsIdentifier (w : Text) : Prop where
  start : ∃ c r, w = c :: r ∧ Text.isIdentifierStart c = true
  chars : ∀ c ∈ w, Text.isIdentifierChar c = true
  unreserved : w ∉ Token.keywords

theorem IsIdentifier.wordStart {w : Text} (hw : IsIdentifier w) (ht : EndsWord t) :
    wordStart (w ++ t) = w :=
  wordStart_append hw.chars ht

theorem name?_eq_some {w : Text} (hstart : ∃ c r, w = c :: r ∧ Text.isIdentifierStart c = true)
    (hchars : ∀ c ∈ w, Text.isIdentifierChar c = true) (ht : EndsWord t) :
    Token.name? (w ++ t) = some (w, w.length) := by
  have hword := wordStart_append hchars ht
  obtain ⟨c, r, rfl, hstart⟩ := hstart
  rw [List.cons_append] at hword ⊢
  simp only [Token.name?, hstart, hword, ↓reduceIte]

theorem identifier?_eq_some {w : Text} (hw : IsIdentifier w) (ht : EndsWord t) :
    Token.identifier? (w ++ t) = some (w, w.length) := by
  rw [Token.identifier?, name?_eq_some hw.start hw.chars ht]
  simp [hw.unreserved]

/-- A text that begins with no digit and no point begins with no number. -/
theorem number?_eq_none {c : Char} (hdigit : c.isDigit = false) (hpoint : c ≠ '.') (t : Text) :
    Token.number? (c :: t) = none := by
  have hsplit : Numeral.splitDigits (c :: t) = ([], c :: t) :=
    Numeral.splitDigits_append (List.forall_mem_nil _) (c :: t) (by simpa using hdigit)
  unfold Token.number?
  simp only [hsplit]
  split
  · rename_i heq
    exact absurd (List.cons.inj heq).1 hpoint
  · rfl

theorem string?_eq_none {c : Char} (hquote : c ∉ ['"', '\'']) (t : Text) :
    Token.string? (c :: t) = none := by
  simp only [List.mem_cons, List.not_mem_nil, or_false, not_or] at hquote
  simp [Token.string?, hquote]

/-- A text that begins with another word begins with none of a table. -/
theorem wordOf?_eq_none {α : Type} {table : List (Text × α)} {w : Text} (hword : wordStart t = w)
    (hw : w ∉ table.map Prod.fst) : Token.wordOf? table t = none := by
  have hlookup : table.lookup w = none := by
    rw [List.lookup_eq_none_iff]
    intro entry hentry
    have hne : w ≠ entry.1 := fun h => hw (h ▸ List.mem_map_of_mem hentry)
    simpa using hne
  simp only [Token.wordOf?, hword, hlookup]
  rfl

/-- A text that begins with none of the signs and words of a unary operator. -/
theorem unaryOperator?_eq_none {c : Char} {w : Text} (hsign : c ∉ ['!', '-', '+'])
    (hword : wordStart (c :: t) = w) (hw : w ∉ [text "typeof", text "await"]) :
    Token.unaryOperator? (c :: t) = none := by
  unfold Token.unaryOperator?
  split
  · simp_all
  · simp_all
  · simp_all
  · exact wordOf?_eq_none hword (by simpa using hw)

theorem fails_single {α : Type} {scan : Text → Option (α × Nat)} {make : Nat → α → Phrase}
    (h : scan t = none) : Fails (single scan make) t :=
  ((reads_place fun _ => trivial).bind_fails fun _ _ => (fails_token h).bind).part

theorem reads_single {α : Type} {scan : Text → Option (α × Nat)} {make : Nat → α → Phrase}
    {w : Text} {a : α} (h : scan (w ++ t) = some (a, w.length)) (hmake : ∀ start, P (make start a)) :
    Reads (single scan make) (w ++ t) P (skip t) := by
  refine (Reads.bind (reads_place fun _ => trivial) fun start _ => ?_).part
  refine (reads_token h).bind ?_
  rintro _ rfl
  exact reads_pure (hmake start)

/-- The readers of literals that are one token. -/
def literals : List (Reader Phrase) := [
  single Token.number? .number,
  single Token.string? .string,
  single (Token.wordOf? [(text "true", true), (text "false", false)]) .bool,
  single (Token.wordOf? [(text "null", ())]) fun start _ => .null start,
  single (Token.wordOf? [(text "undefined", ())]) fun start _ => .undefined start]

/-- The words that each of them begins with. -/
def literalWords : List (List Text) :=
  [[], [], [text "true", text "false"], [text "null"], [text "undefined"]]

/-- A reader that begins with one of its words fails at another word. -/
theorem fails_take {α : Type} {words : List (List Text)} {readers : List (Reader α)} {w : Text}
    (h : List.Forall₂ (fun words r => w ∉ words → Fails r t) words readers) (n : Nat)
    (hw : w ∉ (words.take n).flatten) : ∀ r ∈ readers.take n, Fails r t := by
  have hall := List.forall₂_take n h
  generalize readers.take n = readers at hall
  generalize words.take n = words at hall hw
  induction hall with
  | nil => simp
  | cons hr _ ih =>
    rw [List.flatten_cons, List.mem_append, not_or] at hw
    intro r hmem
    rcases List.mem_cons.1 hmem with rfl | hmem
    · exact hr hw.1
    · exact ih hw.2 r hmem

/-- What begins with neither a digit nor a point nor a quote is no literal but a word. -/
theorem fails_literals {c : Char} {w : Text} (hdigit : c.isDigit = false)
    (hsign : c ∉ ['.', '"', '\'']) (hword : wordStart (c :: t) = w) (n : Nat)
    (hw : w ∉ (literalWords.take n).flatten) : ∀ r ∈ literals.take n, Fails r (c :: t) := by
  simp only [List.mem_cons, List.not_mem_nil, or_false, not_or] at hsign
  have hall : List.Forall₂ (fun words r => w ∉ words → Fails r (c :: t)) literalWords literals := by
    refine .cons (fun _ => fails_single (number?_eq_none hdigit hsign.1 t)) ?_
    refine .cons (fun _ => fails_single (string?_eq_none (by simp [hsign]) t)) ?_
    refine .cons (fun h => fails_single (wordOf?_eq_none hword h)) ?_
    refine .cons (fun h => fails_single (wordOf?_eq_none hword h)) ?_
    exact .cons (fun h => fails_single (wordOf?_eq_none hword h)) .nil
  exact fails_take hall n hw

/-- What is neither a literal nor a bracket is no phrase but a word. -/
theorem fails_before_identifier {c : Char} {w : Text} (hdigit : c.isDigit = false)
    (hsign : c ∉ ['.', '"', '\'', '[']) (hword : wordStart (c :: t) = w)
    (hw : w ∉ [text "true", text "false", text "null", text "undefined", text "new"]) :
    ∀ r ∈ literals ++ [arrayLiteral fuel self, construction fuel self], Fails r (c :: t) := by
  intro r hr
  rcases List.mem_append.1 hr with hr | hr
  · refine fails_literals hdigit ?_ hword 5 ?_ r hr
    · exact fun h => hsign (by fin_cases h <;> decide)
    · exact fun h => hw (List.mem_append_left [text "new"] h)
  · fin_cases hr
    · exact ((reads_place fun _ => trivial).bind_fails fun _ _ =>
        (fails_sign (by simpa using fun h => hsign (by simp [h]))).bind).part
    · exact ((reads_place fun _ => trivial).bind_fails fun _ _ =>
        (fails_word (by rw [hword]; exact fun h => hw (by simp [h]))).part.bind).part

theorem IsIdentifier.starts {w : Text} (hw : IsIdentifier w) : ∃ c r, w = c :: r ∧
    c.isDigit = false ∧ c ∉ ['.', '"', '\'', '[', '!', '-', '+'] := by
  obtain ⟨c, r, rfl, hstart⟩ := hw.start
  refine ⟨c, r, rfl, ?_, fun hsign => ?_⟩
  · simp only [Text.isIdentifierStart, Bool.or_eq_true, decide_eq_true_eq] at hstart
    rcases hstart with (halpha | rfl) | rfl
    · exact Text.isDigit_of_isAlpha halpha
    · decide
    · decide
  · fin_cases hsign <;> exact absurd hstart (by decide)

theorem IsIdentifier.skip_append {w : Text} (hw : IsIdentifier w) (t : Text) : skip (w ++ t) = w ++ t := by
  have hchars := hw.chars
  obtain ⟨c, r, rfl, -⟩ := hw.start
  exact skip_cons_of_isIdentifierChar (hchars c (by simp)) (r ++ t)

theorem IsIdentifier.unaryOperator? {w : Text} (hw : IsIdentifier w) (ht : EndsWord t) :
    Token.unaryOperator? (w ++ t) = none := by
  have hword := hw.wordStart ht
  have hkeywords := hw.unreserved
  obtain ⟨c, r, rfl, -, hsign⟩ := hw.starts
  simp only [Token.keywords, List.mem_cons, List.not_mem_nil, or_false, not_or] at hkeywords
  exact unaryOperator?_eq_none (by simp_all) hword (by simp [hkeywords])

theorem IsIdentifier.reads_primary {w : Text} (hw : IsIdentifier w) (ht : EndsWord t)
    (hP : ∀ start, P (.identifier start w)) : Reads (primary fuel self) (w ++ t) P (skip t) := by
  have hword := hw.wordStart ht
  have hidentifier := identifier?_eq_some hw ht
  have hkeywords := hw.unreserved
  obtain ⟨c, r, rfl, hdigit, hsign⟩ := hw.starts
  simp only [Token.keywords, List.mem_cons, List.not_mem_nil, or_false, not_or] at hkeywords
  refine Reads.oneOf ?_ [_, _, _, _, _, _, _]
    (fails_before_identifier hdigit (by simp_all) hword (by simp [hkeywords]))
  exact reads_single hidentifier hP

/-- A name is an operand. -/
theorem EndsOperand.reads_identifier {w : Text} (h : EndsOperand t) (hw : IsIdentifier w) :
    Reads (unary fuel self) (w ++ t) (fun p => p.Means 12 (.identifier nowhere w)) (skip t) :=
  h.reads_unary (hw.unaryOperator? h.word)
    (hw.reads_primary h.word fun start => Phrase.identifier_means start w)

theorem number?_eq_some {w whole fraction : Text} {bits : Nat}
    (hw : Numeral.IsPositional w whole fraction) (hbits : Numeral.bits? w = some bits)
    (ht : EndsToken t) :
    Token.number? (w ++ t) = some (Float.ofBits (UInt64.ofNat bits), w.length) := by
  have hdigit : ∀ c ∈ t.head?, c.isDigit = false := fun c hc => by
    have := ht.word c hc
    grind [Text.isIdentifierChar, Char.isAlphanum]
  have hexponent : Token.exponentLength t = 0 := by
    cases t with
    | nil => rfl
    | cons c t =>
      have hc := ht.word c rfl
      have he : c ≠ 'e' ∧ c ≠ 'E' := by
        constructor <;> rintro rfl <;> exact absurd hc (by decide)
      simp [Token.exponentLength, Numeral.exponentStart, he]
  have hne : whole.isEmpty = false := by simpa using hw.ne_nil
  -- without a fraction and with one
  rcases hw.text_eq with ⟨rfl, rfl⟩ | rfl
  · have hsplit := Numeral.splitDigits_append hw.digits t hdigit
    unfold Token.number?
    simp only [hsplit]
    split
    · exact absurd rfl ht.point
    · simp only [hne, Bool.false_and, Bool.false_eq_true, ↓reduceIte, List.length_nil, hexponent,
        Nat.add_zero, List.take_left, Numeral.float?, hbits, Option.map_some]
  · have hsplit := Numeral.splitDigits_append hw.digits ('.' :: (fraction ++ t)) (by simp)
    have hfraction := Numeral.splitDigits_append hw.fractionDigits t hdigit
    have htake : (whole ++ '.' :: fraction ++ t).take (whole.length + 1 + fraction.length)
        = whole ++ '.' :: fraction := by
      rw [show whole.length + 1 + fraction.length = (whole ++ '.' :: fraction).length by simp; omega,
        List.take_left]
    rw [List.append_assoc, List.cons_append] at htake ⊢
    simp only [Token.number?, hsplit, hfraction, hne, Bool.false_and, Bool.false_eq_true, ↓reduceIte,
      hexponent, Nat.add_zero, htake, Numeral.float?, hbits, Option.map_some, List.length_append,
      List.length_cons, Option.some.injEq, Prod.mk.injEq, true_and]
    omega

/-- A word that begins with a digit is none of the words that begin with something else. -/
theorem wordStart_notMem {c : Char} (hdigit : c.isDigit = true) (t : Text) {words : List Text}
    (hwords : words.all fun w => w.head?.all (!·.isDigit)) : wordStart (c :: t) ∉ words := by
  intro hmem
  have hhead := List.all_eq_true.1 hwords _ hmem
  rw [wordStart, List.takeWhile_cons_of_pos (by simp [Text.isIdentifierChar, Char.isAlphanum, hdigit])]
    at hhead
  simp [hdigit] at hhead

theorem unaryOperator?_of_isDigit {c : Char} (hdigit : c.isDigit = true) (t : Text) :
    Token.unaryOperator? (c :: t) = none := by
  refine unaryOperator?_eq_none (fun hsign => ?_) rfl (wordStart_notMem hdigit t (by decide))
  fin_cases hsign <;> exact absurd hdigit (by decide)

/-- A decimal is an operand. -/
theorem EndsOperand.reads_number {w whole fraction : Text} {bits : Nat} (h : EndsOperand t)
    (hw : Numeral.IsPositional w whole fraction) (hbits : Numeral.bits? w = some bits) :
    Reads (unary fuel self) (w ++ t)
      (fun p => p.Means 12 (.number nowhere (Float.ofBits (UInt64.ofNat bits)))) (skip t) := by
  have hnumber := number?_eq_some hw hbits h.toEndsToken
  obtain ⟨c, r, hcons, hdigit⟩ := hw.cons
  subst hcons
  refine h.reads_unary (unaryOperator?_of_isDigit hdigit (r ++ t)) ?_
  exact (reads_single hnumber fun start => Phrase.number_means start _).oneOf [] (by simp)

/-- A phrase in parentheses has neither operators nor suffixes. -/
theorem reads_group {w : Text} (hw : Reads self (skip (w ++ ')' :: t)) P (')' :: t))
    (hgroup : ∀ start inner, P inner → Q (.group start inner)) :
    Reads (primary fuel self) ('(' :: (w ++ [')']) ++ t) Q (skip t) := by
  have hword : wordStart ('(' :: (w ++ [')'] ++ t)) = [] := rfl
  refine Reads.oneOf ?_ [_, _, _, _, _, _, _, _] ?_
  · refine Reads.bind (reads_place fun _ => trivial) fun start _ => ?_
    rw [List.cons_append, List.append_assoc]
    refine (reads_sign '(' _).bind fun _ _ => ?_
    refine Reads.bind hw fun inner hinner => ?_
    exact (reads_sign ')' t).bind fun _ _ => reads_pure (hgroup start inner hinner)
  · intro r hr
    rcases List.mem_append.1 (show r ∈ [_, _, _, _, _, _, _] ++ [_] from hr) with hr | hr
    · exact fails_before_identifier (by decide) (by decide) hword (by decide) r hr
    · rw [List.mem_singleton] at hr
      subst hr
      exact fails_single rfl

/-- A phrase in parentheses is an operand. -/
theorem EndsOperand.reads_group {w : Text} {room : Nat} {e : Expression} (h : EndsOperand t)
    (hw : Reads self (skip (w ++ ')' :: t)) (fun p => p.Means room e) (')' :: t)) :
    Reads (unary fuel self) ('(' :: (w ++ [')']) ++ t) (fun p => p.Means (room + 12) e) (skip t) := by
  have hword : wordStart ('(' :: (w ++ [')'] ++ t)) = [] := rfl
  refine h.reads_unary (unaryOperator?_eq_none (by decide) hword (by decide)) ?_
  exact Script.reads_group hw fun start _ hinner => hinner.group start

/-! ## Choices and assignments -/

/-- A choice between two phrases. -/
theorem Reader.Reads.choice {R S : Phrase → Prop} {mid mid' : Text}
    (htest : Reads (binary fuel self) t P ('?' :: mid))
    (hyes : Reads self (skip mid) Q (':' :: mid')) (hno : Reads self (skip mid') R rest)
    (hchoice : ∀ test yes no, P test → Q yes → R no → S (.conditional test yes no)) :
    Reads (Grammar.conditional fuel self) t S rest := by
  refine (htest.bind fun test hp => ?_).part
  have hbranches : Reads (do sign '?'; let yes ← self; sign ':'; return (yes, ← self)) ('?' :: mid)
      (fun branches => Q branches.1 ∧ R branches.2) rest := by
    refine (reads_sign '?' mid).bind fun _ _ => ?_
    refine hyes.bind fun yes hq => ?_
    refine (reads_sign ':' mid').bind fun _ _ => ?_
    exact hno.bind fun no hr => reads_pure ⟨hq, hr⟩
  refine hbranches.optional.bind ?_
  rintro _ ⟨⟨yes, no⟩, rfl, hq, hr⟩
  exact reads_pure (hchoice test yes no hp hq hr)

theorem assignmentOperator?_sign (operator : AssignmentOperator) (t : Text) :
    Token.assignmentOperator? (operator.sign ++ ' ' :: t)
      = some (operator, operator.sign.length) := by
  cases operator <;> rfl

/-- An assignment. -/
theorem Reader.Reads.assign {R : Phrase → Prop} {mid : Text} (operator : AssignmentOperator)
    (htarget : Reads (Grammar.conditional fuel self) t P (operator.sign ++ ' ' :: mid))
    (hvalue : Reads self (skip mid) Q rest)
    (hassign : ∀ target value, P target → Q value → R (.assign target operator value)) :
    Reads (Grammar.assignment fuel self) t R rest := by
  refine (htarget.bind fun target hp => ?_).part
  have hoperator := reads_token (assignmentOperator?_sign operator mid)
  rw [skip_space] at hoperator
  have hassigned : Reads (do
        let operator ← Reader.part (token Token.assignmentOperator?)
        return (operator, ← self)) (operator.sign ++ ' ' :: mid)
      (fun assigned => assigned.1 = operator ∧ Q assigned.2) rest := by
    refine hoperator.part.bind ?_
    rintro _ rfl
    exact hvalue.bind fun value hq => reads_pure ⟨rfl, hq⟩
  refine hassigned.optional.bind ?_
  rintro _ ⟨⟨_, value⟩, rfl, rfl, hq⟩
  exact reads_pure (hassign target value hp hq)

/-! ## Lists -/

/-- No phrase begins where neither an operand nor an operator before one does. -/
theorem fails_phrase_of_primary (hprimary : ∀ self, Fails (primary fuel self) t)
    (hunary : Token.unaryOperator? t = none) (depth : Nat) : Fails (phrase fuel depth) t := by
  cases depth with
  | zero => exact fails_fail
  | succ depth =>
    have hnone : ReadsAll operatorBefore (fun (_ : Unit) _ => True) t [] t :=
      .nil (fails_operatorBefore hunary)
    have hoperators := hnone.many (Nat.zero_le fuel)
    have hoperand : Fails (unary fuel (phrase fuel depth)) t :=
      (hoperators.bind_fails fun _ _ => (hprimary _).bind.part.bind).part
    have hbinary : Fails (binary fuel (phrase fuel depth)) t := fails_chains binaryLevels hoperand
    have hconditional : Fails (Grammar.conditional fuel (phrase fuel depth)) t := hbinary.bind.part
    show Fails (Grammar.assignment fuel (phrase fuel depth)) t
    exact hconditional.bind.part

/-- A phrase is missing where something ends one. -/
theorem fails_phrase {c : Char} (h : c ∈ closers) (t : Text) (depth : Nat) :
    Fails (phrase fuel depth) (c :: t) := by
  have hword : wordStart (c :: t) = [] := by fin_cases h <;> rfl
  have hdigit : c.isDigit = false := by fin_cases h <;> rfl
  refine fails_phrase_of_primary (fun self => fails_oneOf fun r hr => ?_) ?_ depth
  · rcases List.mem_append.1 (show r ∈ [_, _, _, _, _, _, _] ++ [_, _] from hr) with hr | hr
    · exact fails_before_identifier hdigit (by fin_cases h <;> decide) hword (by decide) r hr
    · fin_cases hr
      · refine fails_single ?_
        fin_cases h <;> rfl
      · refine (reads_place fun _ => trivial).bind_fails fun _ _ => (fails_sign ?_).bind
        fin_cases h <;> simp
  · refine unaryOperator?_eq_none ?_ hword (by decide)
    fin_cases h <;> decide

/-- Nor is there a phrase at the end of the text. -/
theorem fails_phrase_nil (depth : Nat) : Fails (phrase fuel depth) [] := by
  refine fails_phrase_of_primary (fun self => fails_oneOf fun r hr => ?_) rfl depth
  have hsign (c : Char) : Fails (sign c) [] := fails_sign (by simp)
  fin_cases hr
  · exact fails_single rfl
  · exact fails_single rfl
  · exact fails_single rfl
  · exact fails_single rfl
  · exact fails_single rfl
  · exact ((reads_place fun _ => trivial).bind_fails fun _ _ => (hsign '[').bind).part
  · exact ((reads_place fun _ => trivial).bind_fails fun _ _ =>
      (fails_word (by decide)).part.bind).part
  · exact fails_single rfl
  · exact (reads_place fun _ => trivial).bind_fails fun _ _ => (hsign '(').bind

section

variable {α β : Type} {item : Reader α} {rel : β → α → Prop} (source : β → Text)

/-- What an item of a list needs to be read: nothing is skipped before it, and a comma or the sign
    that closes the list ends it. -/
structure ReadsItem (item : Reader α) (rel : β → α → Prop) (w : Text) (b : β) : Prop where
  skip (t : Text) : skip (w ++ t) = w ++ t
  reads (c : Char) (h : c ∈ closers) (t : Text) : Reads item (w ++ c :: t) (rel b) (c :: t)

/-- The text is read as the expression. -/
abbrev ReadsPhrase (r : Reader Phrase) (room : Nat) (written : Text) (e : Expression) : Prop :=
  ReadsItem r (fun e p => Phrase.Means room p e) written e

theorem ReadsPhrase.mono {r : Reader Phrase} {room most : Nat} {written : Text} {e : Expression}
    (h : ReadsPhrase r room written e) (hle : room ≤ most) : ReadsPhrase r most written e :=
  ⟨h.skip, fun c hc t => (h.reads c hc t).mono fun _ hp => hp.mono hle⟩

/-- Items between commas, up to a sign that closes the list. -/
theorem reads_commaList {close : Char} (hclose : close ∈ closers) (hcomma : close ≠ ',') {b : β}
    {bs : List β} (h : ∀ x ∈ b :: bs, ReadsItem item rel (source x) x) (hfuel : bs.length ≤ fuel)
    (t : Text) :
    Reads (commaList fuel item) (Text.join (text ", ") ((b :: bs).map source) ++ close :: t)
      (List.Forall₂ rel (b :: bs)) (close :: t) := by
  -- what comes behind an item begins with a comma or is the end
  have hothers : ∀ bs : List β, (∀ x ∈ bs, ReadsItem item rel (source x) x) →
      ∃ c r, c ∈ closers ∧
        (bs.map source).flatMap (text ", " ++ ·) ++ close :: t = c :: r ∧
        ReadsAll (do sign ','; item) rel (c :: r) bs (close :: t) := by
    intro bs
    induction bs with
    | nil =>
      intro _
      exact ⟨close, t, hclose, rfl, .nil (fails_sign (by simpa using hcomma)).bind⟩
    | cons b bs ih =>
      intro h
      obtain ⟨c, r, hc, htext, hall⟩ := ih fun x hx => h x (List.mem_cons_of_mem _ hx)
      have hb := h b (by simp)
      refine ⟨',', ' ' :: (source b ++ c :: r), by decide, ?_, .cons ?_ hall⟩
      · rw [List.map_cons, List.flatMap_cons, List.append_assoc, List.append_assoc, htext]
        rfl
      · have hcomma := reads_sign ',' (' ' :: (source b ++ c :: r))
        rw [skip_space, hb.skip] at hcomma
        exact hcomma.bind fun _ _ => hb.reads c hc r
  obtain ⟨c, r, hc, htext, hall⟩ := hothers bs fun x hx => h x (List.mem_cons_of_mem _ hx)
  rw [List.map_cons, Text.join_cons, List.append_assoc, htext]
  refine ((h b (by simp)).reads c hc r).bind fun first hfirst => ?_
  exact (hall.many hfuel).bind fun others hothers => reads_pure (.cons hfirst hothers)

/-- A list in parentheses, which may be empty. -/
theorem reads_parenthesized {bs : List β} (h : ∀ x ∈ bs, ReadsItem item rel (source x) x)
    (hempty : ∀ t, Fails item (')' :: t)) (hfuel : bs.length ≤ fuel) (t : Text) :
    Reads (do sign '('; let found ← Reader.optional (commaList fuel item); sign ')'
              return found.getD [])
      ('(' :: (Text.join (text ", ") (bs.map source) ++ ')' :: t)) (List.Forall₂ rel bs)
      (Script.skip t) := by
  have hclose := reads_sign ')' t
  refine (reads_sign '(' _).bind fun _ _ => ?_
  -- an empty list is read as no list at all
  cases bs with
  | nil =>
    have hskip : Script.skip (')' :: t) = ')' :: t := skip_cons_of_token rfl (by decide) t
    show Reads _ (Script.skip (')' :: t)) _ _
    rw [hskip]
    refine (hempty t).bind.optional.bind ?_
    rintro _ rfl
    exact hclose.bind fun _ _ => reads_pure .nil
  | cons b bs =>
    have hskip := (h b (by simp)).skip ((bs.map source).flatMap (text ", " ++ ·) ++ ')' :: t)
    rw [← List.append_assoc, ← Text.join_cons, ← List.map_cons] at hskip
    rw [hskip]
    have hcount : bs.length ≤ fuel := by simp at hfuel; omega
    have hcloser : ')' ∈ closers := by decide
    have hlist := reads_commaList source hcloser (by decide) h hcount t
    refine hlist.optional.bind ?_
    rintro _ ⟨as, rfl, has⟩
    exact hclose.bind fun _ _ => reads_pure has

end

/-- A call of a name. -/
theorem EndsOperand.reads_call {β : Type} {w : Text} {bs : List β} {source : β → Text}
    {expression : β → Expression} (h : EndsOperand t) (hw : IsIdentifier w)
    (hitems : ∀ b ∈ bs, ReadsItem self (fun b p => p.Means 12 (expression b)) (source b) b)
    (hempty : ∀ t, Fails self (')' :: t)) (hfuel : bs.length < fuel) :
    Reads (unary fuel self) (w ++ '(' :: (Text.join (text ", ") (bs.map source) ++ ')' :: t))
      (fun p => p.Means 24 (.call nowhere (.identifier nowhere w) (bs.map expression))) (skip t) := by
  obtain ⟨fuel, rfl⟩ : ∃ n, fuel = n + 1 := ⟨fuel - 1, by omega⟩
  have hopen : EndsWord ('(' :: (Text.join (text ", ") (bs.map source) ++ ')' :: t)) := by
    rintro _ ⟨⟩
    rfl
  have hname : Reads (primary (fuel + 1) self) _ (fun p => p.Means 12 (.identifier nowhere w)) _ :=
    hw.reads_primary hopen fun start => Phrase.identifier_means start w
  refine Reads.unary (Reads.part (hname.bind fun callee hcallee => ?_)) (hw.unaryOperator? hopen)
  rw [skip_cons_of_token rfl (by decide)]
  -- one suffix, the operands, and then none
  refine Reads.iterate
    (P := fun p => p.Means 24 (.call nowhere (.identifier nowhere w) (bs.map expression)))
    ?_ fun p hp => reads_iterate_stop (fails_suffix h.suffix p) hp
  refine Reads.bind (reads_place fun _ => trivial) fun start _ => Reads.oneOf ?_ [] (by simp)
  refine (reads_parenthesized source hitems hempty (by omega) t).part.bind fun operands hall => ?_
  exact reads_pure (hcallee.call (List.forall₂_map_left_iff.2 hall) start)

end

end Pseudocode.Script
