import Pseudocode.Proofs.OperandTokens

/-!
# The lines of an outline

Every line of an outline is read as the statement that it is written for (`Entry.classify_source`):
its first word is the keyword of the statement or no keyword at all, and its operands are found
between the words that separate them.
-/

namespace Pseudocode.Outline

open Statement Shape Expression

/-! ## Statements -/

/-- The statement of a line without a block. -/
def Simple.statement : Simple → Statement
  | print operands => .print (operands.map Operand.source)
  | assign target value => .assignment target.chars .plain (.expression value.source)
  | call callee operands => .call (callee.chars ++ '(' :: (list operands ++ [')']))
  | returning value => .returning (value.map Operand.source)
  | breaking => .breaking
  | continuing => .continuing

/-- The statement of a line. -/
def Entry.statement : Entry → Statement
  | header => .header (text "A")
  | footer => .footer
  | simple s => s.statement
  | whileLoop c => .whileLoop c.source
  | forLoop c => .forLoop c.name.chars c.start.source c.stop.source (c.step.map Bound.source)
  | function name parameters => .function name.chars (parameters.map Name.chars)
  | branch c => .branch c.source
  | elseIf c => .elseIf c.source
  | otherwise => .otherwise
  | ending kind => .ending kind

/-! ## Conditions -/

theorem tokens_sign {c : Char} (hquote : isQuote c = false) (hword : isWordStart c = false)
    (t : Text) : tokens (c :: t) = .sign c :: tokens t := by
  rw [tokens, if_neg (by simp [hquote]), if_neg (by simp [hword])]

/-- The signs of a relation between blanks are tokens of their own. -/
theorem Relation.tokens_append (r : Relation) (t : Text) :
    tokens (' ' :: (r.source ++ ' ' :: t))
      = .sign ' ' :: (r.source.map Token.sign ++ .sign ' ' :: tokens t) := by
  have hblank (t : Text) : tokens (' ' :: t) = .sign ' ' :: tokens t :=
    tokens_sign (by decide) (by decide) t
  have hsign {c : Char} (hc : c ∈ ['<', '>', '=']) (t : Text) :
      tokens (c :: t) = .sign c :: tokens t := by
    fin_cases hc <;> exact tokens_sign (by decide) (by decide) t
  rw [hblank]
  cases r <;> simp [Relation.source, text, hblank, hsign]

namespace Condition

theorem isTrimmed (c : Condition) : Text.IsTrimmed c.source := by
  cases c with
  | single o => exact o.isTrimmed
  | compare left relation right =>
    obtain ⟨d, r, hsource⟩ := List.exists_cons_of_ne_nil left.isTrimmed.ne_nil
    have hstart := left.isTrimmed.start d (by rw [hsource]; rfl)
    refine ⟨by simp [source], ?_, ?_⟩
    · rw [source, hsource]
      rintro _ ⟨⟩
      exact hstart
    · intro d hd
      have hright := right.isTrimmed
      rw [source, List.getLast?_append_of_ne_nil _ (by simp), List.getLast?_cons_of_ne_nil (by simp),
        List.getLast?_append_of_ne_nil _ (by simp), List.getLast?_cons_of_ne_nil hright.ne_nil] at hd
      exact hright.last d hd

theorem newline_not_mem (c : Condition) : '\n' ∉ c.source := by
  cases c with
  | single o => exact o.newline_not_mem
  | compare left relation right =>
    have hrelation : '\n' ∉ relation.source := by cases relation <;> decide
    simp [source, left.newline_not_mem, right.newline_not_mem, hrelation]

/-- A condition opens and closes no bracket. -/
theorem imbalance?_source (c : Condition) : imbalance? c.source = none := by
  cases c with
  | single o =>
    have h := imbalanceFrom?_append o.isInert [] []
    rw [List.append_nil] at h
    rw [imbalance?, source, o.tokens_source, h]
    rfl
  | compare left relation right =>
    have hright := imbalanceFrom?_append right.isInert [] []
    rw [List.append_nil] at hright
    rw [imbalance?, source, left.tokens_append (by simp [Text.isNameChar]; decide),
      relation.tokens_append, right.tokens_source, imbalanceFrom?_append left.isInert]
    -- the blanks and the signs of the relation are no brackets
    have hrelation : imbalanceFrom? [] (.sign ' ' :: (relation.source.map Token.sign ++
        .sign ' ' :: right.tokens)) = imbalanceFrom? [] right.tokens := by
      cases relation <;> rfl
    rw [hrelation, hright]
    rfl

/-- No condition is one of the words that may follow it. -/
theorem toLower_source_ne (c : Condition) {w : Text} (hw : w ∈ [text "then", text "do"]) :
    Text.toLower c.source ≠ w := by
  have hreserved : w ∈ reservedWords := by fin_cases hw <;> decide
  have hletters : w.all Char.isAlpha = true := by fin_cases hw <;> decide
  -- the word has letters only, so a character of the condition that is none rules it out
  have hnot {d : Char} (hd : d ∈ c.source) (hlower : d.toLower.isAlpha = false) :
      Text.toLower c.source ≠ w := by
    rintro rfl
    have hmem : d.toLower ∈ Text.toLower c.source := List.mem_map_of_mem hd
    rw [List.all_eq_true.1 hletters _ hmem] at hlower
    cases hlower
  cases c with
  | compare left relation right => exact hnot (d := ' ') (by simp [source]) (by decide)
  | single o =>
    cases o with
    | quoted q => exact hnot (d := '"') (by simp [source, Operand.source]) (by decide)
    | bound b =>
      cases b with
      | name n =>
        intro hname
        exact n.unreserved (by rw [← hname] at hreserved; exact hreserved)
      | digits d =>
        obtain ⟨c, r, hchars⟩ := List.exists_cons_of_ne_nil d.ne_nil
        have hdigit := d.digits c (by rw [hchars]; simp)
        refine hnot (d := c) (by simp [source, Operand.source, Bound.source, hchars]) ?_
        have hascii : c.toNat < 128 := toNat_lt_of_isAlphanum (by simp [Char.isAlphanum, hdigit])
        have hall := forall_ascii (p := fun c => c.isDigit = true → c.toLower.isAlpha = false)
          (by decide +kernel) hascii
        exact hall hdigit

/-- A condition is found between its keyword and the word that ends the line. -/
theorem condition?_eq (c : Condition) {words : List Text} (hwords : ∀ w ∈ words, ' ' ∉ w) {w : Text}
    (hclose : closing words (' ' :: w) = some ()) :
    condition? words (' ' :: (c.source ++ ' ' :: w)) = some c.source := by
  -- no closing word stands in the condition, so it ends at the one behind it
  have hpassage : passage (closing words) (c.source ++ ' ' :: w) = some (c.source, ()) := by
    refine passage_append c.isTrimmed.ne_nil c.newline_not_mem hclose ?_
    intro q r hqr _ hr
    refine closing_eq_none hwords hr (fun d hd => c.isTrimmed.last d ?_) w
    rw [hqr, List.getLast?_append_of_ne_nil _ hr]
    exact hd
  have hblanks : blanks (passage (closing words)) (' ' :: (c.source ++ ' ' :: w))
      = some (c.source, ()) := by
    obtain ⟨d, r, hsource⟩ := List.exists_cons_of_ne_nil c.isTrimmed.ne_nil
    have hstart := c.isTrimmed.start d (by rw [hsource]; rfl)
    rw [blanks, if_pos (by decide), hsource, List.cons_append, blanks_cons hstart,
      ← List.cons_append, ← hsource, hpassage]
    rfl
  -- nor is the condition itself such a word
  have hthen : Text.sameWord c.source (text "then") = false :=
    beq_false_of_ne (c.toLower_source_ne (w := text "then") (by simp))
  have hdo : Text.sameWord c.source (text "do") = false :=
    beq_false_of_ne (c.toLower_source_ne (w := text "do") (by simp))
  rw [condition?, if_pos (by rfl), hblanks]
  simp only [hthen, hdo, Bool.or_false, Bool.false_eq_true, ↓reduceIte]

end Condition

/-! ## Names at the beginning of a line -/

namespace IsWord

variable {w : Text} (h : IsWord w) {t : Text}

include h

theorem name?_append {starts : Char → Bool} (hstarts : ∀ c, isNameStart c = true → starts c = true)
    (ht : ∀ c ∈ t.head?, Text.isWordChar c = false) : name? starts (w ++ t) = some (w, t) := by
  obtain ⟨c, r, hchars, hstart⟩ := h.cons
  have hr : ∀ d ∈ r, Text.isWordChar d = true := fun d hd =>
    (h.isNameChar (by rw [hchars]; exact List.mem_cons_of_mem _ hd)).word
  rw [hchars, List.cons_append, name?, if_pos (hstarts c hstart), Text.takeWhile_append_of_ends hr ht,
    Text.dropWhile_append_of_ends hr ht]

theorem headWord_append (ht : ∀ c ∈ t.head?, Text.isNameChar c = false) :
    headWord (w ++ t) = Text.toLower w := by
  rw [headWord, Text.takeWhile_append_of_ends (fun c hc => (h.isNameChar hc).name) ht]

theorem imbalance?_eq_none : imbalance? w = none := by
  have htokens : tokens (w ++ []) = [.word w] := by rw [h.tokens_append (by simp), tokens]
  rw [List.append_nil] at htokens
  rw [imbalance?, htokens]
  rfl

theorem head?_ne {c : Char} (hc : c ∈ ['"', '\'', '#', '(']) (t : Text) : (w ++ t).head? ≠ some c := by
  obtain ⟨d, r, hchars, -⟩ := h.cons
  have hsign := (h.isNameChar (c := d) (by rw [hchars]; simp)).sign
  rw [hchars]
  rintro ⟨⟩
  fin_cases hc <;> exact hsign (by simp)

/-- A name, an equals sign and what is left of the line. -/
theorem assignment?_append {rest : Text} (hrest : '\n' ∉ rest) :
    assignment? (w ++ (text " = " ++ rest)) = some (w, .plain, ' ' :: rest) := by
  have hname : name? isNameStart (w ++ (text " = " ++ rest)) = some (w, text " = " ++ rest) :=
    h.name?_append (fun _ h => h) (by simp [text]; decide)
  have hvalue : assignedValue? (text " = " ++ rest) = some (.plain, ' ' :: rest) := by
    show (if ' ' = '=' ∨ '\n' ∈ rest then none else some (AssignmentOperator.plain, ' ' :: rest)) = _
    rw [if_neg (by simp [hrest])]
  have hbrackets : brackets (· ≠ '=') assignedValue? (text " = " ++ rest)
      = some ([], .plain, ' ' :: rest) := by
    have hstart : groupStart (· ≠ '=') assignedValue? (text " = " ++ rest) = none := rfl
    rw [brackets, hstart, hvalue]
    rfl
  simp only [assignment?, hname, hbrackets, Option.bind_eq_bind, Option.bind_some, List.append_nil]
  rfl

end IsWord

namespace Name

variable (n : Name) {t : Text}

/-- A line that begins with a name begins with no keyword. -/
theorem keyword?_append (ht : ∀ c ∈ t.head?, Text.isNameChar c = false) :
    keyword? (n.chars ++ t) = none := by
  have h := n.unreserved
  rw [reservedWords, List.mem_append, not_or] at h
  rw [keyword?, n.isWord.headWord_append ht, List.lookup_eq_none_iff]
  intro entry hentry
  have hne : Text.toLower n.chars ≠ entry.1 := fun hname =>
    h.1 (by rw [hname]; exact List.mem_map_of_mem hentry)
  simpa using hne

end Name

/-! ## Statements without a block -/

/-- A line is read by its first word. -/
theorem classify_of_isTrimmed {t : Text} (ht : Text.IsTrimmed t) (hcomment : t.head? ≠ some '#') :
    classify t = match keyword? t with
      | some keyword => withKeyword keyword t (t.drop (headWord t).length)
      | none => withoutKeyword t := by
  rw [classify, ht.trim]
  split
  · exact absurd rfl ht.ne_nil
  · exact absurd rfl hcomment
  · rfl

theorem ifBalanced_eq {form : Form} {operands : List Text} (h : ∀ t ∈ operands, imbalance? t = none)
    (s : Statement) : ifBalanced form operands s = s := by
  have hnone : operands.findSome? imbalance? = none := List.findSome?_eq_none_iff.2 h
  rw [ifBalanced, hnone]

theorem Operand.imbalance?_source (o : Operand) : imbalance? o.source = none := by
  have h := imbalanceFrom?_append o.isInert [] []
  rw [List.append_nil] at h
  rw [imbalance?, o.tokens_source, h]
  rfl

theorem Bound.imbalance?_source (b : Bound) : imbalance? b.source = none :=
  (Operand.bound b).imbalance?_source

/-- An operand is no request for input. -/
theorem Operand.initializer_source (o : Operand) : initializer (' ' :: o.source) = .expression o.source := by
  have htrim : Text.trim (' ' :: o.source) = o.source :=
    Text.trim_blanks_append [' '] (by simp; decide) o.isTrimmed
  -- no operand begins with the word of an input
  have hword : headWord o.source ≠ text "input" := by
    cases o with
    | bound b =>
      cases b with
      | name n =>
        have h := n.isWord.headWord_append (t := []) (by simp)
        rw [List.append_nil] at h
        show headWord n.chars ≠ _
        rw [h]
        intro hname
        exact n.unreserved (by rw [hname]; decide)
      | digits d =>
        obtain ⟨c, r, hchars⟩ := List.exists_cons_of_ne_nil d.ne_nil
        have hdigit := d.digits c (by rw [hchars]; simp)
        have hname := (d.isNameChar (c := c) (by rw [hchars]; simp)).name
        have hlower : c.toLower ≠ 'i' := by
          have hascii : c.toNat < 128 := toNat_lt_of_isAlphanum (by simp [Char.isAlphanum, hdigit])
          have hall := forall_ascii (p := fun c => c.isDigit = true → c.toLower ≠ 'i')
            (by decide +kernel) hascii
          exact hall hdigit
        show headWord d.chars ≠ _
        rw [hchars, headWord, List.takeWhile_cons_of_pos hname]
        intro h
        exact hlower (List.cons.inj h).1
    | quoted q =>
      show ([] : Text) ≠ text "input"
      decide
  rw [initializer, htrim]
  simp [hword]

theorem Name.head?_ne (n : Name) {c : Char} (hc : c ∈ ['"', '\'', '#', '(']) (t : Text) :
    (n.chars ++ t).head? ≠ some c := n.isWord.head?_ne hc t

theorem Simple.isTrimmed (s : Simple) : Text.IsTrimmed s.source := by
  cases s with
  | print operands =>
    cases operands with
    | nil => decide
    | cons o os =>
      have hword : Text.IsTrimmed (text "print") := by decide
      exact hword.append [' '] (isTrimmed_list o os)
  | assign target value =>
    rw [source, List.append_assoc]
    exact target.isTrimmed.append (text " = ") value.isTrimmed
  | call callee operands =>
    have hclose : Text.IsTrimmed [')'] := by decide
    exact callee.isTrimmed.append ('(' :: list operands) hclose
  | returning value =>
    cases value with
    | none => decide
    | some value =>
      have hword : Text.IsTrimmed (text "return") := by decide
      exact hword.append [' '] value.isTrimmed
  | breaking => decide
  | continuing => decide

theorem Simple.head?_ne (s : Simple) : s.source.head? ≠ some '#' := by
  cases s with
  | print operands => cases operands <;> exact fun h => absurd h (by simp [source, text])
  | assign target value =>
    rw [source, List.append_assoc]
    exact target.head?_ne (by simp) _
  | call callee operands => exact callee.head?_ne (by simp) _
  | returning value => cases value <;> exact fun h => absurd h (by simp [source, text])
  | breaking => decide
  | continuing => decide

/-- A list in a line that prints is not taken for one in parentheses. -/
theorem insideParentheses?_join {ws : List Text} (h : ∀ w ∈ ws, IsItem w) :
    insideParentheses? (Text.join (text ", ") ws) = none := by
  cases ws with
  | nil => rfl
  | cons w ws =>
    have hw := h w (by simp)
    obtain ⟨c, r, rfl⟩ := List.exists_cons_of_ne_nil hw.isTrimmed.ne_nil
    have hne : '(' ≠ c := by
      rintro rfl
      have hsign := hw.isInert (.sign '(') (by rw [tokens_sign (by decide) (by decide)]; simp)
      exact absurd (show '('.isDigit = true from hsign) (by decide)
    rw [Text.join_cons, List.cons_append, insideParentheses?, Text.dropStart?, if_neg hne]

/-- A line that prints prints the items of its list. -/
theorem printOf_join {rest : Text} {ws : List Text} (hfollows : followsKeyword rest = true)
    (htrim : Text.trim rest = Text.join (text ", ") ws) (h : ∀ w ∈ ws, IsItem w) :
    printOf rest = .print ws := by
  have hempty : ws.any List.isEmpty = false := by
    rw [List.any_eq_false]
    intro w hw
    simpa using (h w hw).isTrimmed.ne_nil
  have hbalanced : ∀ t ∈ [Text.join (text ", ") ws], imbalance? t = none := by
    simpa using imbalance?_join h
  rw [printOf, if_pos hfollows]
  simp only [htrim, insideParentheses?_join h, Option.getD_none, splitList_join h, hempty,
    ifBalanced_eq hbalanced, Bool.false_eq_true, ↓reduceIte]

theorem withoutKeyword_assign (target : Name) (value : Operand) :
    withoutKeyword (target.chars ++ (text " = " ++ value.source))
      = .assignment target.chars .plain (.expression value.source) := by
  have hbalanced : ∀ t ∈ [target.chars, value.source], imbalance? t = none := by
    intro t ht
    simp only [List.mem_cons, List.not_mem_nil, or_false] at ht
    rcases ht with rfl | rfl
    · exact target.isWord.imbalance?_eq_none
    · exact value.imbalance?_source
  simp only [withoutKeyword, target.isWord.assignment?_append value.newline_not_mem, value.initializer_source]
  exact ifBalanced_eq hbalanced _

/-- The tokens of a call. -/
theorem tokens_call (callee : Name) (operands : List Operand) :
    tokens (callee.chars ++ '(' :: (list operands ++ [')']))
      = .word callee.chars :: .sign '(' :: (listTokens operands ++ [.sign ')']) := by
  rw [callee.tokens_append (by simp [Text.isNameChar]; decide),
    tokens_sign (by decide) (by decide), tokens_list_append (by simp [Text.isNameChar]; decide),
    tokens_sign (by decide) (by decide), tokens]

theorem withoutKeyword_call (callee : Name) (operands : List Operand) :
    withoutKeyword (callee.chars ++ '(' :: (list operands ++ [')']))
      = .call (callee.chars ++ '(' :: (list operands ++ [')'])) := by
  have hname : name? isNameStart (callee.chars ++ '(' :: (list operands ++ [')']))
      = some (callee.chars, '(' :: (list operands ++ [')'])) :=
    callee.isWord.name?_append (fun _ h => h) (by simp; decide)
  -- behind the name a bracket opens where an assignment has its sign
  have hassignment : assignment? (callee.chars ++ '(' :: (list operands ++ [')'])) = none := by
    have hbrackets : brackets (· ≠ '=') assignedValue? ('(' :: (list operands ++ [')'])) = none := rfl
    simp only [assignment?, hname, hbrackets, Option.bind_eq_bind, Option.bind_some, Option.bind_none]
  have htrimmed : Text.IsTrimmed (callee.chars ++ '(' :: (list operands ++ [')'])) :=
    (Simple.call callee operands).isTrimmed
  have hsemicolon (t : Text) : dropSemicolon (t ++ [')']) = t ++ [')'] := by
    rw [dropSemicolon, Text.dropEnd?_concat_of_ne (by decide)]
    rfl
  have hcall : call? (callee.chars ++ '(' :: (list operands ++ [')']))
      = some (callee.chars ++ '(' :: (list operands ++ [')'])) := by
    obtain ⟨c, r, hchars, hstart⟩ := callee.chars_cons
    have hr : ∀ d ∈ r, (Text.isWordChar d || decide (d = '.')) = true := fun d hd => by
      simp [(callee.isNameChar (by rw [hchars]; exact List.mem_cons_of_mem _ hd)).word]
    have hdrop : (r ++ '(' :: (list operands ++ [')'])).dropWhile
        (fun c => Text.isWordChar c || decide (c = '.')) = '(' :: (list operands ++ [')']) :=
      Text.dropWhile_append_of_ends hr (by simp; decide)
    have hrest : Text.IsTrimmed ('(' :: (list operands ++ [')'])) := by
      have hopen : Text.IsTrimmed ['('] := by decide
      have hclose : Text.IsTrimmed [')'] := by decide
      exact hopen.append (list operands) hclose
    have hwhole : dropSemicolon (callee.chars ++ '(' :: (list operands ++ [')']))
        = callee.chars ++ '(' :: (list operands ++ [')']) := by
      have h := hsemicolon (callee.chars ++ '(' :: list operands)
      rwa [List.append_assoc] at h
    have hparts : dropSemicolon ('(' :: (list operands ++ [')'])) = '(' :: (list operands ++ [')']) :=
      hsemicolon ('(' :: list operands)
    rw [hchars] at hwhole htrimmed ⊢
    rw [List.cons_append] at hwhole htrimmed ⊢
    rw [call?, hstart, hdrop, hwhole, htrimmed.trimEnd]
    simp only [Bool.not_true, Bool.false_eq_true, ↓reduceIte]
    rw [show Text.trimStart ('(' :: (list operands ++ [')'])) = '(' :: (list operands ++ [')']) from
      hrest.trimStart, hparts,
      show Text.trimEnd ('(' :: (list operands ++ [')'])) = '(' :: (list operands ++ [')']) from
      hrest.trimEnd]
    have hdropped : (Text.dropStart? ['('] ('(' :: (list operands ++ [')']))).bind
        (Text.dropEnd? [')']) = some (list operands) := by
      rw [show '(' :: (list operands ++ [')']) = ['('] ++ (list operands ++ [')']) from rfl,
        Text.dropStart?_append, Option.bind_some, Text.dropEnd?_append]
    rw [hdropped]
    simp [newline_not_mem_list]
  have hbalanced : ∀ t ∈ [callee.chars ++ '(' :: (list operands ++ [')'])], imbalance? t = none := by
    intro t ht
    obtain rfl := List.mem_singleton.1 ht
    rw [imbalance?, tokens_call]
    show imbalanceFrom? ['('] (listTokens operands ++ [.sign ')']) = none
    rw [imbalanceFrom?_list]
    rfl
  rw [withoutKeyword, hassignment, hcall]
  exact ifBalanced_eq hbalanced _

theorem classify_simple (s : Simple) : classify s.source = s.statement := by
  rw [classify_of_isTrimmed s.isTrimmed s.head?_ne]
  cases s with
  | print operands =>
    cases operands with
    | nil => exact @printOf_join [] [] rfl rfl (by simp)
    | cons o os =>
      show printOf (' ' :: list (o :: os)) = _
      have htrim : Text.trim (' ' :: list (o :: os)) = list (o :: os) :=
        Text.trim_blanks_append [' '] (by simp; decide) (isTrimmed_list o os)
      exact printOf_join rfl htrim (isItem_operands (o :: os))
  | assign target value =>
    rw [Simple.source, List.append_assoc, target.keyword?_append (by simp [text]; decide)]
    exact withoutKeyword_assign target value
  | call callee operands =>
    rw [Simple.source, callee.keyword?_append (by simp; decide)]
    exact withoutKeyword_call callee operands
  | returning value =>
    cases value with
    | none =>
      have hbalanced : ∀ t ∈ [[]], imbalance? t = none := by
        simp [imbalance?, tokens, imbalanceFrom?]
      show withKeyword .return _ [] = _
      simp only [withKeyword, returnValue?, Option.map_none, Option.getD_none,
        ifBalanced_eq hbalanced]
      rfl
    | some value =>
      have hheader : header? (' ' :: value.source) = some value.source := by
        rw [header?, someBlanks_space value.isTrimmed,
          if_neg (by simp [value.isTrimmed.ne_nil, value.newline_not_mem])]
      have hbalanced : ∀ t ∈ [value.source], imbalance? t = none := by
        simpa using value.imbalance?_source
      show withKeyword .return _ (' ' :: value.source) = _
      simp only [withKeyword, returnValue?, hheader, Option.map_some, value.isTrimmed.trim,
        Option.getD_some, ifBalanced_eq hbalanced]
      rfl
  | breaking => rfl
  | continuing => rfl

/-! ## Headers of blocks -/

/-- What may follow the stop value of a counting loop. -/
def loopEnd? (t : Text) : Option (Option Text) :=
  (separator (text "step") (passage (closing [text "do"])) t).map (fun (step, _) => some step) <|>
    (closing [text "do"] t).map fun _ => none

theorem loopEnd?_cons {c : Char} (hc : Text.isBlank c = false) (t : Text) :
    loopEnd? (c :: t) = none := by
  rw [loopEnd?, separator_cons hc, closing_cons hc]
  rfl

theorem loopEnd?_step (step : Bound) : loopEnd? (text " step " ++ step.source) = some (some step.source) := by
  have hpassage : passage (closing [text "do"]) step.source = some (step.source, ()) := by
    have h : passage (closing [text "do"]) (step.source ++ []) = some (step.source, ()) :=
      passage_word step.isTrimmed.ne_nil (fun c hc => (step.isNameChar hc).blank)
        (fun c t hc => closing_cons hc _ t) rfl
    rwa [List.append_nil] at h
  have hseparator : separator (text "step") (passage (closing [text "do"])) (text " step " ++ step.source)
      = some (step.source, ()) := by
    show someBlanks (passage (closing [text "do"])) (' ' :: step.source) = _
    rw [someBlanks_space step.isTrimmed, hpassage]
  rw [loopEnd?, hseparator]
  rfl

namespace Counter

variable (c : Counter)

/-- The bounds of a counting loop are found between the words that separate them. -/
theorem loopBounds?_eq : loopBounds? (' ' :: (c.start.source ++ (text " to " ++ (c.stop.source ++
    match c.step with
    | none => []
    | some step => text " step " ++ step.source))))
      = some (c.start.source, c.stop.source, c.step.map Bound.source) := by
  generalize hrest : (match c.step with
    | none => []
    | some step => text " step " ++ step.source : Text) = rest
  -- each reader calls the next one, so the last of them comes first
  have hend : loopEnd? rest = some (c.step.map Bound.source) := by
    cases hstep : c.step with
    | none =>
      rw [hstep] at hrest
      subst hrest
      rfl
    | some step =>
      rw [hstep] at hrest
      subst hrest
      exact loopEnd?_step step
  have hstop : passage loopEnd? (c.stop.source ++ rest)
      = some (c.stop.source, c.step.map Bound.source) :=
    passage_word c.stop.isTrimmed.ne_nil (fun d hd => (c.stop.isNameChar hd).blank)
      (fun _ t hd => loopEnd?_cons hd t) hend
  obtain ⟨d, r, hsource⟩ := List.exists_cons_of_ne_nil c.stop.isTrimmed.ne_nil
  have hseparator : separator (text "to") (passage loopEnd?) (text " to " ++ (c.stop.source ++ rest))
      = some (c.stop.source, c.step.map Bound.source) := by
    show blanks (passage loopEnd?) (c.stop.source ++ rest) = _
    rw [hsource, List.cons_append, blanks_cons (c.stop.isTrimmed.start d (by rw [hsource]; rfl)),
      ← List.cons_append, ← hsource, hstop]
  have hstart : passage (separator (text "to") (passage loopEnd?))
      (c.start.source ++ (text " to " ++ (c.stop.source ++ rest)))
        = some (c.start.source, c.stop.source, c.step.map Bound.source) :=
    passage_word c.start.isTrimmed.ne_nil (fun d hd => (c.start.isNameChar hd).blank)
      (fun _ t hd => separator_cons hd _ t) hseparator
  obtain ⟨d, r, hsource⟩ := List.exists_cons_of_ne_nil c.start.isTrimmed.ne_nil
  show blanks (passage (separator (text "to") (passage loopEnd?))) (' ' :: _) = _
  rw [blanks, if_pos (by decide), hsource, List.cons_append,
    blanks_cons (c.start.isTrimmed.start d (by rw [hsource]; rfl)), ← List.cons_append, ← hsource,
    hstart]
  rfl

theorem source_eq : c.source = text "for " ++ (c.name.chars ++ (text " =" ++ ' ' :: (c.start.source ++
    (text " to " ++ (c.stop.source ++ match c.step with
    | none => []
    | some step => text " step " ++ step.source))))) := by
  simp only [source, List.append_assoc]
  rfl

theorem isTrimmed : Text.IsTrimmed c.source := by
  have hword : Text.IsTrimmed (text "for") := by decide
  cases hstep : c.step with
  | none =>
    have h := hword.append
      (' ' :: c.name.chars ++ text " = " ++ c.start.source ++ text " to ") c.stop.isTrimmed
    rw [source, hstep]
    simpa [text] using h
  | some step =>
    have h := hword.append
      (' ' :: c.name.chars ++ text " = " ++ c.start.source ++ text " to " ++ c.stop.source ++
        text " step ") step.isTrimmed
    rw [source, hstep]
    simpa [text] using h

theorem classify_source : classify c.source
    = .forLoop c.name.chars c.start.source c.stop.source (c.step.map Bound.source) := by
  have hcomment : c.source.head? ≠ some '#' := fun h => absurd h (by simp [source, text])
  rw [classify_of_isTrimmed c.isTrimmed hcomment, source_eq]
  have hbounds := c.loopBounds?_eq
  generalize c.start.source ++ (text " to " ++ (c.stop.source ++ match c.step with
    | none => []
    | some step => text " step " ++ step.source)) = bounds at hbounds
  have hname : name? isFoldedNameStart (c.name.chars ++ (text " =" ++ ' ' :: bounds))
      = some (c.name.chars, text " =" ++ ' ' :: bounds) :=
    c.name.isWord.name?_append (fun _ => isFoldedNameStart_of_isNameStart) (by simp [text]; decide)
  obtain ⟨d, r, hchars, -⟩ := c.name.chars_cons
  have hblank := c.name.isTrimmed.start d (by rw [hchars]; rfl)
  have hloop : forLoop? (' ' :: (c.name.chars ++ (text " =" ++ ' ' :: bounds)))
      = some (c.name.chars, c.start.source, c.stop.source, c.step.map Bound.source) := by
    have hsign : dropAssignSign? (Text.trimStart (text " =" ++ ' ' :: bounds)) = some (' ' :: bounds) :=
      rfl
    rw [forLoop?]
    show blanks _ (c.name.chars ++ (text " =" ++ ' ' :: bounds)) = _
    rw [hchars, List.cons_append, blanks_cons hblank, ← List.cons_append, ← hchars]
    simp only [hname, hsign, hbounds, Option.bind_eq_bind, Option.bind_some]
    rfl
  have hbalanced : ∀ t ∈ [c.start.source, c.stop.source, (c.step.map Bound.source).getD []],
      imbalance? t = none := by
    intro t ht
    simp only [List.mem_cons, List.not_mem_nil, or_false] at ht
    rcases ht with rfl | rfl | rfl
    · exact c.start.imbalance?_source
    · exact c.stop.imbalance?_source
    · cases c.step with
      | none => simp [imbalance?, tokens, imbalanceFrom?]
      | some step => exact step.imbalance?_source
  show withKeyword .for _ (' ' :: (c.name.chars ++ (text " =" ++ ' ' :: bounds))) = _
  simp only [withKeyword, hloop]
  exact ifBalanced_eq hbalanced _

end Counter

/-- Names between commas are a list of operands. -/
theorem join_names (names : List Name) :
    Text.join (text ", ") (names.map Name.chars) = list (names.map fun n => .bound (.name n)) := by
  rw [list, List.map_map]
  rfl

theorem isName_chars (n : Name) : isName n.chars = true := by
  have h : name? isNameStart (n.chars ++ []) = some (n.chars, []) :=
    n.isWord.name?_append (fun _ h => h) (by simp)
  rw [List.append_nil] at h
  rw [isName, h]

/-- The text of a list of names has no parentheses. -/
theorem parentheses_not_mem_names (names : List Name) :
    ∀ c ∈ Text.join (text ", ") (names.map Name.chars), c ≠ '(' ∧ c ≠ ')' := by
  intro c hc
  cases names with
  | nil => exact absurd hc (by simp [Text.join])
  | cons n names =>
    have hname (n : Name) (h : c ∈ n.chars) : c ≠ '(' ∧ c ≠ ')' := by
      have hsign := (n.isNameChar h).sign
      constructor <;> rintro rfl <;> exact hsign (by simp)
    -- a character of a name, or of the separator between two
    rw [List.map_cons, Text.join_cons] at hc
    rcases List.mem_append.1 hc with hc | hc
    · exact hname n hc
    · obtain ⟨w, hw, hc⟩ := List.mem_flatMap.1 hc
      obtain ⟨n, -, rfl⟩ := List.mem_map.1 hw
      rcases List.mem_append.1 hc with hc | hc
      · simp only [text] at hc
        fin_cases hc <;> decide
      · exact hname n hc

theorem isTrimmed_function (name : Name) (parameters : List Name) :
    Text.IsTrimmed (Entry.function name parameters).source := by
  have hword : Text.IsTrimmed (text "function") := by decide
  have hclose : Text.IsTrimmed [')'] := by decide
  have h := hword.append
    (' ' :: name.chars ++ '(' :: Text.join (text ", ") (parameters.map Name.chars)) hclose
  simpa [Entry.source, text] using h

theorem classify_function (name : Name) (parameters : List Name) :
    classify (Entry.function name parameters).source
      = .function name.chars (parameters.map Name.chars) := by
  have hcomment : (Entry.function name parameters).source.head? ≠ some '#' := fun h =>
    absurd h (by simp [Entry.source, text])
  have hsplit : splitList (Text.join (text ", ") (parameters.map Name.chars))
      = parameters.map Name.chars := by
    rw [join_names, splitList_list, List.map_map]
    rfl
  have hparentheses := parentheses_not_mem_names parameters
  rw [classify_of_isTrimmed (isTrimmed_function name parameters) hcomment, Entry.source,
    List.append_assoc]
  generalize Text.join (text ", ") (parameters.map Name.chars) = written at hsplit hparentheses
  have hname : name? isFoldedNameStart (name.chars ++ '(' :: (written ++ [')']))
      = some (name.chars, '(' :: (written ++ [')'])) :=
    name.isWord.name?_append (fun _ => isFoldedNameStart_of_isNameStart) (by simp; decide)
  obtain ⟨d, r, hchars, -⟩ := name.chars_cons
  have hblank := name.isTrimmed.start d (by rw [hchars]; rfl)
  have hany : written.any (fun c => c = '(' || c = ')') = false := by
    rw [List.any_eq_false]
    intro c hc
    simp [hparentheses c hc]
  have hfunction : function? (' ' :: (name.chars ++ '(' :: (written ++ [')'])))
      = some (name.chars, written) := by
    have hopen : Text.dropStart? ['('] (Text.trimStart ('(' :: (written ++ [')'])))
        = some (written ++ [')']) := rfl
    have hclose := Text.dropEnd?_append [')'] written
    rw [function?]
    show blanks _ (name.chars ++ '(' :: (written ++ [')'])) = _
    rw [hchars, List.cons_append, blanks_cons hblank, ← List.cons_append, ← hchars]
    simp only [hname, hopen, hclose, hany, Option.bind_eq_bind, Option.bind_some,
      Bool.false_eq_true, ↓reduceIte]
  -- each parameter is a name, so none is complained of
  have hnames : (parameters.map Name.chars).find? (fun p => !isName p) = none := by
    rw [List.find?_eq_none]
    intro w hw
    obtain ⟨n, -, rfl⟩ := List.mem_map.1 hw
    simp [isName_chars]
  show withKeyword .function _ (' ' :: (name.chars ++ '(' :: (written ++ [')']))) = _
  simp only [withKeyword, functionOf, hfunction, hsplit, hnames]

/-! ## Lines -/

namespace Entry

theorem isTrimmed (e : Entry) : Text.IsTrimmed e.source := by
  -- a condition stands between a keyword and the word that ends the line
  have hcondition {w t : Text} (hw : Text.IsTrimmed w) (ht : Text.IsTrimmed t) (c : Condition) :
      Text.IsTrimmed (w ++ ' ' :: (c.source ++ ' ' :: t)) := by
    have h := hw.append (' ' :: (c.source ++ [' '])) ht
    simpa using h
  have hthen : Text.IsTrimmed (text "then") := by decide
  have hdo : Text.IsTrimmed (text "do") := by decide
  cases e with
  | header => decide
  | footer => decide
  | otherwise => decide
  | ending kind => cases kind <;> decide
  | simple s => exact s.isTrimmed
  | forLoop c => exact c.isTrimmed
  | function name parameters => exact isTrimmed_function name parameters
  | whileLoop c =>
    rw [source, List.append_assoc]
    exact hcondition (w := text "while") (by decide) hdo c
  | branch c =>
    rw [source, List.append_assoc]
    exact hcondition (w := text "if") (by decide) hthen c
  | elseIf c =>
    rw [source, List.append_assoc]
    exact hcondition (w := text "elseif") (by decide) hthen c

theorem head?_ne (e : Entry) : e.source.head? ≠ some '#' := by
  cases e with
  | simple s => exact s.head?_ne
  | header | footer | otherwise => decide
  | whileLoop c => exact fun h => absurd h (by simp [source, text])
  | forLoop c => exact fun h => absurd h (by simp [source, Counter.source, text])
  | function name parameters => exact fun h => absurd h (by simp [source, text])
  | branch c => exact fun h => absurd h (by simp [source, text])
  | elseIf c => exact fun h => absurd h (by simp [source, text])
  | ending kind => cases kind <;> decide

/-- Every line is read as the statement that it is written for. -/
theorem classify_source (e : Entry) : classify e.source = e.statement := by
  have hbalanced (c : Condition) : ∀ t ∈ [c.source], imbalance? t = none := by
    simpa using c.imbalance?_source
  cases e with
  | simple s => exact classify_simple s
  | forLoop c => exact c.classify_source
  | function name parameters => exact classify_function name parameters
  | header => rfl
  | footer => rfl
  | otherwise => rfl
  | ending kind => cases kind <;> rfl
  | whileLoop c =>
    have hcondition : condition? [text "then", text "do"] _ = _ :=
      c.condition?_eq (by decide) (w := text "do") rfl
    rw [classify_of_isTrimmed (whileLoop c).isTrimmed (whileLoop c).head?_ne, source,
      List.append_assoc]
    show withKeyword .while _ (' ' :: (c.source ++ ' ' :: text "do")) = _
    simp only [withKeyword, hcondition]
    exact ifBalanced_eq (hbalanced c) _
  | branch c =>
    have hcondition : condition? [text "then"] _ = _ :=
      c.condition?_eq (by decide) (w := text "then") rfl
    rw [classify_of_isTrimmed (branch c).isTrimmed (branch c).head?_ne, source, List.append_assoc]
    show withKeyword .if _ (' ' :: (c.source ++ ' ' :: text "then")) = _
    simp only [withKeyword, hcondition]
    exact ifBalanced_eq (hbalanced c) _
  | elseIf c =>
    have hcondition : condition? [text "then"] _ = _ :=
      c.condition?_eq (by decide) (w := text "then") rfl
    rw [classify_of_isTrimmed (elseIf c).isTrimmed (elseIf c).head?_ne, source, List.append_assoc]
    show withKeyword .elseIf _ (' ' :: (c.source ++ ' ' :: text "then")) = _
    simp only [withKeyword, elseIfOf, Option.bind_some, hcondition]
    exact ifBalanced_eq (hbalanced c) _

end Entry

end Pseudocode.Outline
