import Pseudocode.Proofs.Containment
import Pseudocode.Proofs.Margins
import Pseudocode.Proofs.PhraseSteps

/-!
# Signs that touch

A sign that another sign follows is no operator between two operands, and behind an operand a phrase
goes on with nothing else that begins with a sign. An operand is read in the same way in front of any
text that a space keeps from it, so a text with two signs behind an operand is not understood.

* `Ahead`, `run_ahead`       texts that are alike up to the end of an operand
* `IsOperand.run`            where a text gets to behind an operand
* `Program.syntaxError_of_touching_signs`   two signs behind an operand need a gap between them
-/

namespace Pseudocode.Script

open Reader Grammar Wanted

variable {n : Nat}

/-! ## Texts that go on alike -/

/-- One text ends with a semicolon where the other one goes on behind a space. -/
inductive Ahead (behind : Text) : Text → Text → Prop where
  | inside {p : Text} (hne : p ≠ []) : Ahead behind (p ++ [';']) (p ++ ' ' :: behind)
  | behind : Ahead behind [';'] behind

/-- The text is at its end, or in front of a comment that nothing closes. -/
def IsLost (t : Text) : Prop := t = [] ∨ ∃ r, t = '/' :: '*' :: r

section

variable {p behind : Text} {wanted w : Wanted}

/-- A sign that is read in front of a semicolon is read in front of a space. -/
theorem exists_sign_append {sign r : Text} {barred : List Char} (hbarred : ' ' ∉ barred)
    (h : p ++ [';'] = sign ++ r) (hr : ∀ c ∈ r.head?, c ∉ barred) (hle : sign.length ≤ p.length)
    (t : Text) : ∃ r', p ++ ' ' :: t = sign ++ r' ∧ ∀ c ∈ r'.head?, c ∉ barred := by
  obtain ⟨q, rfl⟩ : sign <+: p := List.prefix_of_prefix_length_le ⟨r, h.symm⟩ ⟨[';'], rfl⟩ hle
  rw [List.append_assoc, List.append_cancel_left_eq] at h
  refine ⟨q ++ ' ' :: t, List.append_assoc .., fun c hc => ?_⟩
  cases q with
  | nil =>
    obtain rfl := Option.some.inj hc
    exact hbarred
  | cons d q =>
    obtain rfl := Option.some.inj hc
    exact hr _ (by rw [← h]; rfl)

theorem operatorLength?_append (h : operatorLength? (p ++ [';']) = some n) (hle : n ≤ p.length)
    (t : Text) : operatorLength? (p ++ ' ' :: t) = some n := by
  -- a binary operator is barred by other characters than an assignment
  rcases Option.or_eq_some_iff.1 h with hbinary | ⟨-, hassignment⟩
  · obtain ⟨level, hlevel, hfound⟩ := List.exists_of_findSome?_eq_some hbinary
    obtain ⟨⟨operator, _⟩, hscan, rfl⟩ := Option.map_eq_some_iff.1 hfound
    obtain ⟨rfl, rfl, r, heq, hr⟩ := binaryOperator?_eq_some_iff.1 hscan
    have hspace : ' ' ∉ operator.barred := by cases operator <;> decide
    obtain ⟨r', heq', hr'⟩ := exists_sign_append hspace heq hr hle t
    exact operatorLength?_binary hlevel (binaryOperator?_eq_some_iff.2 ⟨rfl, rfl, r', heq', hr'⟩)
  · obtain ⟨⟨operator, _⟩, hscan, rfl⟩ := Option.map_eq_some_iff.1 hassignment
    obtain ⟨rfl, r, heq, hr⟩ := assignmentOperator?_eq_some_iff.1 hscan
    have hbarred (r : Text) : r.head? ≠ some '=' ↔ ∀ c ∈ r.head?, c ∉ ['='] := by
      cases r <;> simp
    rw [hbarred] at hr
    obtain ⟨r', heq', hr'⟩ := exists_sign_append (by decide) heq hr hle t
    rw [← hbarred] at hr'
    exact operatorLength?_assignment (assignmentOperator?_eq_some_iff.2 ⟨rfl, r', heq', hr'⟩)

theorem wordStart_append_cons {c : Char} (hc : Text.isIdentifierChar c = false) (p t : Text) :
    wordStart (p ++ c :: t) = wordStart p := by
  induction p with
  | nil => simp [wordStart, hc]
  | cons d p ih =>
    by_cases hd : Text.isIdentifierChar d = true
    · rw [List.cons_append, wordStart, wordStart, List.takeWhile_cons_of_pos hd,
        List.takeWhile_cons_of_pos hd]
      exact congrArg _ ih
    · rw [List.cons_append, wordStart, wordStart, List.takeWhile_cons_of_neg hd,
        List.takeWhile_cons_of_neg hd]

theorem splitDigits_append_cons {c : Char} (hc : c.isDigit = false) (p t : Text) :
    Numeral.splitDigits (p ++ c :: t) =
      ((Numeral.splitDigits p).1, (Numeral.splitDigits p).2 ++ c :: t) := by
  induction p with
  | nil => simp [Numeral.splitDigits, hc]
  | cons d p ih =>
    unfold Numeral.splitDigits at ih ⊢
    rw [Prod.mk.injEq] at ih
    by_cases hd : d.isDigit = true <;> simp [hd, ih.1, ih.2]

theorem exponentStart_append_cons {c : Char} (hc : c ∈ [';', ' ']) (p t : Text) :
    Numeral.exponentStart (p ++ c :: t) = Numeral.exponentStart p := by
  have hdigit : c.isDigit = false := by fin_cases hc <;> rfl
  match p with
  | [] => fin_cases hc <;> rfl
  | [e] => fin_cases hc <;> simp [Numeral.exponentStart, Numeral.splitDigits]
  | e :: d :: p =>
    by_cases hminus : d = '-'
    · simp [Numeral.exponentStart, hminus, splitDigits_append_cons hdigit]
    · by_cases hplus : d = '+'
      · simp [Numeral.exponentStart, hplus, splitDigits_append_cons hdigit]
      · have hdigits := congrArg Prod.fst (splitDigits_append_cons hdigit (d :: p) t)
        rw [List.cons_append] at hdigits
        simp [Numeral.exponentStart, hminus, hplus, hdigits]

theorem number?_append_cons {c : Char} (hc : c ∈ [';', ' ']) (p t : Text) :
    Token.number? (p ++ c :: t) = Token.number? p := by
  have hdigit : c.isDigit = false := by fin_cases hc <;> rfl
  have hpoint : c ≠ '.' := by fin_cases hc <;> decide
  -- each part of a numeral ends at the first character that is none of its own
  have hparts : numeralParts (p ++ c :: t) = numeralParts p := by
    unfold numeralParts
    rw [splitDigits_append_cons hdigit]
    match (Numeral.splitDigits p).2 with
    | [] =>
      have hnone := exponentStart_append_cons hc [] t
      simpa [hpoint] using hnone
    | d :: r =>
      by_cases hd : d = '.'
      · simp [hd, splitDigits_append_cons hdigit, exponentStart_append_cons hc]
      · have hrest := exponentStart_append_cons hc (d :: r) t
        rw [List.cons_append] at hrest
        simp [hd, hrest]
  rw [number?_eq, number?_eq, hparts]

/-- What is quoted in front of a text is quoted without it. -/
theorem quoted?_of_append {quote : Char} {q written : Text}
    (h : Token.quoted? quote (p ++ q) = some written) (hlt : written.length < p.length) :
    Token.quoted? quote p = some written := by
  -- an escape takes two characters, so the induction is on the length
  induction hlength : p.length using Nat.strong_induction_on generalizing p written with
  | _ length ih =>
  subst hlength
  match p with
  | [] => cases hlt
  | c :: p =>
    by_cases hmark : c = '\\'
    · subst hmark
      match p with
      | [] =>
        cases q with
        | nil => exact h
        | cons d q =>
          obtain ⟨inner, -, rfl⟩ := Option.map_eq_some_iff.1 h
          simp at hlt
      | d :: p =>
        obtain ⟨inner, hinner, rfl⟩ := Option.map_eq_some_iff.1 h
        simp only [List.length_cons, Nat.add_lt_add_iff_right] at hlt
        simp only [Token.quoted?, ih p.length (by simp) hinner hlt rfl, Option.map_some]
    · rw [List.cons_append, quoted?_cons hmark] at h
      rw [quoted?_cons hmark]
      split_ifs at h ⊢
      · exact h
      · obtain ⟨inner, hinner, rfl⟩ := Option.map_eq_some_iff.1 h
        simp only [List.length_cons, Nat.add_lt_add_iff_right] at hlt
        rw [ih p.length (by simp) hinner hlt rfl, Option.map_some]

theorem string?_append {written : Text} (h : Token.string? (p ++ [';']) = some (written, n))
    (hle : n ≤ p.length) (t : Text) : Token.string? (p ++ ' ' :: t) = some (written, n) := by
  cases p with
  | nil => cases h
  | cons c p =>
    obtain ⟨hquote, hfound⟩ := Option.ite_none_right_eq_some.1 h
    obtain ⟨inner, hinner, heq⟩ := Option.map_eq_some_iff.1 hfound
    obtain ⟨-, rfl⟩ := Prod.mk.inj heq
    have hlt : inner.length < p.length := Nat.le_of_succ_le_succ hle
    rw [List.cons_append, Token.string?, if_pos hquote,
      quoted?_append_of_eq_some (quoted?_of_append hinner hlt), Option.map_some, heq]

/-- A token that ends in front of the semicolon is read in front of the space. -/
theorem next?_append (h : wanted.next? (p ++ [';']) = some (w, n)) (hne : p ≠ [])
    (hle : n ≤ p.length) (t : Text) : wanted.next? (p ++ ' ' :: t) = some (w, n) := by
  obtain ⟨c, p, rfl⟩ := List.exists_cons_of_ne_nil hne
  -- names and numbers end at a semicolon as they end at a space
  have hword : wordStart (c :: (p ++ [';'])) = wordStart (c :: (p ++ ' ' :: t)) := by
    rw [← List.cons_append, ← List.cons_append, wordStart_append_cons rfl, wordStart_append_cons rfl]
  have hname : Token.name? (c :: (p ++ [';'])) = Token.name? (c :: (p ++ ' ' :: t)) := by
    simp only [Token.name?, hword]
  have hnumber : Token.number? (c :: (p ++ [';'])) = Token.number? (c :: (p ++ ' ' :: t)) := by
    rw [← List.cons_append, ← List.cons_append, number?_append_cons (by simp),
      number?_append_cons (by simp)]
  have hunary (hc : c ∈ ['!', '-', '+']) :
      Token.unaryOperator? (c :: (p ++ [';'])) = Token.unaryOperator? (c :: (p ++ ' ' :: t)) := by
    have hnext : (p ++ [';']).head? = some '=' ↔ (p ++ ' ' :: t).head? = some '=' := by
      cases p <;> simp
    fin_cases hc
    · simp only [Token.unaryOperator?, hnext]
    · rfl
    · rfl
  cases wanted with
  | operand =>
    simp only [List.cons_append, Wanted.next?, nextOperand?] at h ⊢
    split_ifs at h ⊢ with hstart hopen hclose hsign hquote
    · rwa [← hword]
    · exact h
    · exact h
    · rwa [← hunary hsign]
    · obtain ⟨⟨written, _⟩, hscan, heq⟩ := Option.map_eq_some_iff.1 h
      obtain ⟨-, rfl⟩ := Prod.mk.inj heq
      have hscan' := string?_append hscan hle t
      rw [List.cons_append] at hscan'
      rw [hscan', Option.map_some, heq]
    · rwa [← hnumber]
  | operator =>
    simp only [List.cons_append, Wanted.next?, nextOperator?] at h ⊢
    split_ifs at h ⊢ with hopen hclose hpoint
    · exact h
    · exact h
    · exact h
    -- an operator looks at the character behind it, and neither a semicolon nor a space bars one
    · obtain ⟨_, hlength, heq⟩ := Option.map_eq_some_iff.1 h
      obtain ⟨rfl, rfl⟩ := Prod.mk.inj heq
      have hlength' := operatorLength?_append hlength hle t
      rw [List.cons_append] at hlength'
      rw [hlength', Option.map_some]
  | constructor =>
    simp only [List.cons_append, Wanted.next?, Token.identifier?] at h ⊢
    rwa [← hname]
  | member =>
    simp only [List.cons_append, Wanted.next?] at h ⊢
    rwa [← hname]

/-- Nothing is gone on with at a semicolon. -/
theorem next?_semicolon (wanted : Wanted) : wanted.next? [';'] = none := by
  cases wanted <;> rfl

theorem commentEnd?_semicolon (h : commentEnd? p = none) : commentEnd? (p ++ [';']) = none := by
  fun_induction commentEnd? p with
  | case1 => cases h
  | case2 c r hne ih =>
    rw [List.cons_append, commentEnd?, ih (Option.map_eq_none_iff.1 h), Option.map_none]
    rintro rest rfl hrest
    cases r with
    | nil => cases hrest
    | cons d r =>
      obtain ⟨rfl, -⟩ := List.cons.inj hrest
      exact hne r rfl rfl
  | case3 => rfl

theorem skip_slash {r : Text} (h : commentLength? ('/' :: r) = none) : skip ('/' :: r) = '/' :: r := by
  have hgap : isGap '/' = false := rfl
  simp only [skip, gapLength, hgap, h, Bool.false_eq_true, ↓reduceIte, List.drop_zero]

/-- A comment that goes to the end of the text. -/
theorem skip_last_comment {note : Text} (h : '\n' ∉ note) : skip ('/' :: '/' :: note) = [] := by
  have hall : note.takeWhile (· ≠ '\n') = note := by
    refine List.takeWhile_eq_self_iff.2 fun c hc => ?_
    have hne : c ≠ '\n' := ne_of_mem_of_not_mem hc h
    simpa using hne
  have hlength : commentLength? ('/' :: '/' :: note) = some (2 + note.length) := by
    rw [commentLength?, hall]
  rw [skip_of_commentLength? hlength (by omega), List.drop_of_length_le (by simp; omega), skip_nil]

/-- A comment that is closed. -/
theorem skip_closed_comment {r : Text} (h : commentEnd? r = some n) :
    skip ('/' :: '*' :: r) = skip (r.drop n) := by
  have hlength : commentLength? ('/' :: '*' :: r) = some (2 + n) := by
    rw [commentLength?, h, Option.map_some]
  rw [skip_of_commentLength? hlength (by omega), Nat.add_comm, List.drop_succ_cons,
    List.drop_succ_cons]

/-- White space and comments are skipped alike, if no comment swallows the semicolon. -/
theorem skip_ahead (hbehind : skip behind = behind) (p : Text) :
    Ahead behind (skip (p ++ [';'])) (skip (p ++ ' ' :: behind)) ∨ IsLost (skip (p ++ [';'])) := by
  induction hlength : p.length using Nat.strong_induction_on generalizing p with
  | _ length ih =>
  subst hlength
  -- a token that begins at once is in front of both texts
  have hstays (hp : p ≠ []) (hskip : ∀ t ∈ [[';'], ' ' :: behind], skip (p ++ t) = p ++ t) :
      Ahead behind (skip (p ++ [';'])) (skip (p ++ ' ' :: behind)) := by
    rw [hskip _ (by simp), hskip _ (by simp)]
    exact .inside hp
  match p with
  | [] =>
    rw [List.nil_append, List.nil_append, skip_space, hbehind]
    exact .inl .behind
  | c :: p =>
    by_cases hgap : isGap c = true
    · rw [List.cons_append, List.cons_append, skip_cons_of_isGap hgap, skip_cons_of_isGap hgap]
      exact ih _ (by simp) p rfl
    rw [Bool.not_eq_true] at hgap
    by_cases hslash : c = '/'
    case neg => exact .inl (hstays (by simp) fun t _ => skip_cons_of_token hgap hslash _)
    subst hslash
    match p with
    | [] => exact .inl (hstays (by simp) fun t ht => by fin_cases ht <;> rfl)
    | d :: p =>
      by_cases hline : d = '/'
      · subst hline
        by_cases hfeed : '\n' ∈ p
        · obtain ⟨note, rest, rfl, hnote⟩ := List.eq_append_cons_of_mem hfeed
          have hskip (t : Text) : skip ('/' :: '/' :: (note ++ '\n' :: rest) ++ t) = skip (rest ++ t) := by
            rw [← skip_comment hnote (rest ++ t)]
            simp
          rw [hskip, hskip]
          exact ih _ (by simp; omega) rest rfl
        · exact .inr (.inl (skip_last_comment (by simp [hfeed])))
      by_cases hblock : d = '*'
      · subst hblock
        cases hend : commentEnd? p with
        | some n =>
          have hskip (t : Text) : skip ('/' :: '*' :: p ++ t) = skip (p.drop n ++ t) := by
            rw [List.cons_append, List.cons_append, skip_closed_comment (commentEnd?_append hend t),
              List.drop_append_of_le_length (commentEnd?_le hend)]
          rw [hskip, hskip]
          exact ih _ (by simp; omega) _ rfl
        | none =>
          have hlength : commentLength? ('/' :: '*' :: (p ++ [';'])) = none := by
            rw [commentLength?, commentEnd?_semicolon hend, Option.map_none]
          exact .inr (.inr ⟨_, skip_slash hlength⟩)
      · refine .inl (hstays (by simp) fun t _ => skip_slash ?_)
        unfold commentLength?
        split <;> simp_all

/-- Behind a comment that nothing closes, no semicolon is got to. -/
theorem not_run_of_isLost {t : Text} (h : IsLost t) : ¬ Wanted.Run (wanted, t) (.operator, [';']) := by
  have hnone {c : Char} (hc : c ∈ ['/', '*']) (r : Text) : nextOperand? (c :: r) = none := by
    have hnumber : Token.number? (c :: r) = none := by
      refine number?_eq_none ?_ ?_ r <;> fin_cases hc <;> decide
    fin_cases hc <;> simp [nextOperand?, hnumber, Text.isIdentifierStart]
  intro hrun
  rcases hrun.cases_head with heq | ⟨⟨w, s⟩, ⟨n, hnext, hs⟩, hrest⟩
  · obtain ⟨-, rfl⟩ := Prod.mk.inj heq
    rcases h with h | ⟨r, h⟩ <;> cases h
  rcases h with rfl | ⟨r, rfl⟩
  · cases wanted <;> cases hnext
  cases wanted with
  | operand =>
    rw [Wanted.next?, hnone (by simp)] at hnext
    cases hnext
  | operator =>
    -- a sign of division, and then an operand would begin with the star
    have hdivide : Token.binaryOperator? 8 ('/' :: '*' :: r) = some (.divide, 1) := rfl
    rw [Wanted.next?, nextOperator?_operator (operatorLength?_binary (by decide) hdivide)] at hnext
    obtain ⟨rfl, rfl⟩ := Prod.mk.inj (Option.some.inj hnext)
    obtain rfl : s = '*' :: r := hs.trans (skip_cons_of_token rfl (by decide) r)
    rcases hrest.cases_head with heq | ⟨_, ⟨n, hnext, -⟩, -⟩
    · cases heq
    · rw [Wanted.next?, hnone (by simp)] at hnext
      cases hnext
  | constructor => cases hnext
  | member => cases hnext

/-- As far as the texts go on alike, so do the ways through them. -/
theorem run_ahead (hbehind : skip behind = behind) {s s' : Text}
    (hrun : Wanted.Run (wanted, s) (.operator, [';'])) (hahead : Ahead behind s s') :
    Wanted.Run (wanted, s') (.operator, behind) := by
  generalize hstart : (wanted, s) = start at hrun
  -- from the first step of the run on; the texts stay alike as long as `p` lasts
  induction hrun using Relation.ReflTransGen.head_induction_on generalizing wanted s s' with
  | refl =>
    obtain ⟨rfl, rfl⟩ := Prod.mk.inj hstart
    generalize hend : [';'] = s at hahead
    cases hahead with
    | inside hne =>
      have hlength := congrArg List.length hend
      exact absurd (by simpa using hlength) hne
    | behind => exact .refl
  | @head start next hstep hrest ih =>
    obtain rfl := hstart
    obtain ⟨n, hnext, hs⟩ := hstep
    cases hahead with
    | behind =>
      rw [next?_semicolon] at hnext
      cases hnext
    | @inside p hne =>
      -- a token within `p` is read in both texts, a longer one leaves nothing to be read
      by_cases hle : n ≤ p.length
      · have hnext' := next?_append hnext hne hle behind
        dsimp only at hs
        rw [List.drop_append_of_le_length hle] at hs
        rcases skip_ahead hbehind (p.drop n) with hahead | hlost
        · rw [← hs] at hahead
          have hfirst : Wanted.Step (wanted, p ++ ' ' :: behind)
              (next.1, skip (p.drop n ++ ' ' :: behind)) :=
            ⟨n, hnext', by rw [List.drop_append_of_le_length hle]⟩
          exact .head hfirst (ih hahead rfl)
        · rw [← hs] at hlost
          exact absurd hrest (not_run_of_isLost hlost)
      · have hend : next.2 = [] := by
          rw [hs, List.drop_of_length_le (by simp; omega), skip_nil]
        exact absurd hrest (not_run_of_isLost (.inl hend))

end

/-! ## Operands -/

/-- The text is read as a phrase in front of a semicolon, as a whole. -/
def IsOperand (t : Text) : Prop :=
  ∃ fuel p offset, (expression fuel (Cursor.ofText (t ++ [';']))).result = some (p, ⟨[';'], offset⟩)

theorem rest_ofText (t : Text) : (Cursor.ofText t).rest = skip t := rfl

/-- In front of any other text an operand is gone through to its end. -/
theorem IsOperand.run {t behind : Text} (h : IsOperand t) (hbehind : skip behind = behind) :
    Wanted.Run (.operand, skip (t ++ ' ' :: behind)) (.operator, behind) := by
  obtain ⟨fuel, p, offset, hread⟩ := h
  obtain ⟨w, hw, hrun⟩ := runsOperand_phrase fuel _ _ _ hread
  obtain rfl := List.mem_singleton.1 hw
  rcases skip_ahead hbehind t with hahead | hlost
  · exact run_ahead hbehind hrun hahead
  · exact absurd hrun (not_run_of_isLost hlost)

theorem IsOperand.exists_next? {t behind : Text} (h : IsOperand t) (hbehind : skip behind = behind) :
    ∃ next, nextOperand? (skip (t ++ ' ' :: behind)) = some next := by
  rcases (h.run hbehind).cases_head with heq | ⟨_, ⟨n, hnext, -⟩, -⟩
  · cases heq
  · exact ⟨_, hnext⟩

/-- Where an operand begins, no other sentence does. -/
theorem fails_alternatives_of_next? {fuel : Nat} {self : Reader Sentence} {t : Text}
    {found : Wanted × Nat} (h : nextOperand? t = some found) :
    ∀ r ∈ sentenceAlternatives fuel self, Fails r t := by
  have hsign : ∀ c ∈ t.head?, c ∉ ['\x7b', ';'] := by
    intro c hc hsign
    rw [← List.cons_head?_tail hc] at h
    fin_cases hsign <;> cases h
  refine fails_before hsign 10 fun hword => ?_
  have hnone (w : Text) (hw : w ∈ (sentenceWords.take 10).flatten) : Wanted.behindWord? w = none ∧
      w.head?.any Text.isIdentifierStart = true := by
    revert w
    decide
  obtain ⟨hbehind, hhead⟩ := hnone _ hword
  obtain ⟨c, hc, hstart⟩ := (Option.any_eq_true ..).1 hhead
  rw [nextOperand?_word (List.cons_head?_tail hc).symm hstart, hbehind] at h
  cases h

theorem skip_sign {c : Char} (hc : c ∈ ['+', '-']) (t : Text) : skip (c :: t) = c :: t := by
  refine skip_cons_of_token ?_ ?_ t <;> fin_cases hc <;> decide

/-- No sentence begins with an operand that two signs stand behind. -/
theorem IsOperand.statement_eq_none {left : Text} (hleft : IsOperand left) {c d : Char}
    (hc : c ∈ ['+', '-']) (hd : d ∈ ['+', '-']) (right : Text) (fuel depth : Nat) :
    (statement fuel depth (Cursor.ofText (left ++ ' ' :: c :: d :: right))).result = none := by
  have hstop : nextOperator? (c :: d :: right) = none := by
    have hlength := operatorLength?_signs hc hd right
    fin_cases hc <;> simp [nextOperator?, hlength]
  have hrun := hleft.run (skip_sign hc (d :: right))
  obtain ⟨next, hnext⟩ := hleft.exists_next? (skip_sign hc (d :: right))
  rw [← rest_ofText] at hrun hnext
  generalize Cursor.ofText (left ++ ' ' :: c :: d :: right) = start at hrun hnext ⊢
  cases depth with
  | zero => rfl
  | succ depth =>
    refine Option.eq_none_iff_forall_ne_some.2 fun found hfound => ?_
    rw [statement, sentence_eq] at hfound
    obtain ⟨r, hr, hread⟩ := oneOf_eq_some hfound
    rcases List.mem_append.1 hr with hr | hr
    · have hnone := (fails_alternatives_of_next? hnext r hr).result_eq_none start.offset
      rw [hread] at hnone
      cases hnone
    · obtain rfl := List.mem_singleton.1 hr
      rw [result_part, result_bind, Option.bind_eq_some_iff] at hread
      obtain ⟨⟨p, c'⟩, hexpression, hread⟩ := hread
      rw [result_bind, Option.bind_eq_some_iff] at hread
      obtain ⟨⟨_, _⟩, hsign, -⟩ := hread
      obtain ⟨r, hrest, -⟩ := sign_eq_some hsign
      obtain ⟨w, hw, hrun'⟩ := runsOperand_phrase fuel _ _ _ hexpression
      obtain rfl := List.mem_singleton.1 hw
      rw [hrest] at hrun'
      -- the way to the semicolon and the way to the signs are one way, and neither goes on
      have heq := eq_of_run hrun hrun' hstop rfl
      obtain rfl : c = ';' := (List.cons.inj (Prod.mk.inj heq).2).1
      exact absurd hc (by decide)

/-- A text that no sentence begins is no script. -/
theorem exists_read_eq_error {t : Text} (hne : skip t ≠ [])
    (h : ∀ fuel depth, (statement fuel depth (Cursor.ofText t)).result = none) :
    ∃ reach, read t = .error reach := by
  -- where no statement is read, the whole text would have to be blank
  have hnone : (program (t.length + 1) (Cursor.ofText t)).result = none := by
    refine Option.eq_none_iff_forall_ne_some.2 fun found hfound => ?_
    rw [program, result_bind, Option.bind_eq_some_iff] at hfound
    obtain ⟨⟨statements, c⟩, hmany, hfound⟩ := hfound
    obtain rfl := many_eq_nil (h _ _) hmany
    obtain rfl := eq_of_many_eq_nil hmany
    rw [result_bind, Option.bind_eq_some_iff] at hfound
    obtain ⟨_, hfinished, -⟩ := hfound
    rw [result_part] at hfinished
    obtain ⟨hend, -⟩ := Option.ite_none_right_eq_some.1 hfinished
    exact hne (List.isEmpty_iff.1 hend)
  unfold read
  split
  · next hread =>
    rw [hread] at hnone
    cases hnone
  · exact ⟨_, rfl⟩

namespace Program

/-- Behind an operand, a sign that touches another sign is a syntax error. -/
theorem syntaxError_of_touching_signs {left : Text} (hleft : IsOperand left) {c d : Char}
    (hc : c ∈ ['+', '-']) (hd : d ∈ ['+', '-']) (right : Text) :
    ∃ position found, parse (left ++ ' ' :: c :: d :: (right ++ [';'])) =
      .error ⟨position, .unexpected found⟩ := by
  have hne : skip (left ++ ' ' :: c :: d :: (right ++ [';'])) ≠ [] := by
    obtain ⟨next, hnext⟩ := hleft.exists_next? (skip_sign hc (d :: (right ++ [';'])))
    rintro heq
    rw [heq] at hnext
    cases hnext
  obtain ⟨reach, hread⟩ := exists_read_eq_error hne (hleft.statement_eq_none hc hd (right ++ [';']))
  exact ⟨_, _, parse_of_read_error hread⟩

/-- The operand may be a call. -/
theorem syntaxError_of_touching_signs_call : IsOperand (text "f(a)") ∧ ∃ position found,
    parse (text "f(a) +-b;") = .error ⟨position, .unexpected found⟩ := by
  have hoperand : IsOperand (text "f(a)") :=
    ⟨5, .call (.identifier 0 (text "f")) 1 [.identifier 2 (text "a")], 4, rfl⟩
  exact ⟨hoperand, syntaxError_of_touching_signs (c := '+') (d := '-') hoperand (by decide)
    (by decide) (text "b")⟩

/-- With a gap between them the signs are read, and without one they are not. -/
theorem touching_signs_not_read :
    IsOperand (text "a") ∧ IsOperand (text "b") ∧
      (parse (text "a + -b;")).isOk = true ∧ (parse (text "a - +b;")).isOk = true ∧
      (parse (text "a +-b;")).isOk = false ∧ (parse (text "a -+b;")).isOk = false := by
  refine ⟨⟨2, .identifier 0 (text "a"), 1, rfl⟩, ⟨2, .identifier 0 (text "b"), 1, rfl⟩, ?_⟩
  decide +kernel

end Program

end Pseudocode.Script
