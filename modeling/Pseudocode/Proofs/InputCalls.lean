import Pseudocode.Proofs.LineAlignment
import Pseudocode.Proofs.OutlineScript
import Pseudocode.Report.Location
import Pseudocode.Script.Evaluation

/-!
# Input calls in right-hand sides

A call of `input` is an operand like any other, wherever it stands in the right-hand side of an assignment
or a declaration: what is written between its parentheses is its prompt, and the rest of the right-hand
side works with the answer. The one exception is a call that the right-hand side begins with. That word
makes a request of the whole right-hand side, and what follows the call becomes part of the prompt.

* `tokens_append`, `rewriteTokens_value_append`   texts side by side have their tokens and their script
                                                  side by side
* `Gives`                                         lines that give the value of their right-hand side to a
                                                  name
* `script_of_inputCall`                           what the script of such a line asks for
-/

namespace Pseudocode

/-! ## Trimmed texts -/

namespace Text

theorem isTrimmed_trim {t : Text} (h : trim t ≠ []) : IsTrimmed (trim t) := by
  refine ⟨h, fun c hc => ?_, fun c hc => ?_⟩
  · -- what is left of the text begins where its leading white space ends
    obtain ⟨r, hr⟩ := trimEnd_isPrefix (trimStart t)
    have hstart : (trim t ++ r).head? = some c := by
      rw [List.head?_append_of_ne_nil _ h]
      exact hc
    have hnot := List.head?_dropWhile_not isBlank t
    rw [show t.dropWhile isBlank = trim t ++ r from hr.symm, hstart] at hnot
    simpa using hnot
  · have hnot := List.head?_dropWhile_not isBlank (trimStart t).reverse
    have hlast : ((trimStart t).reverse.dropWhile isBlank).head? = some c := by
      rw [← List.getLast?_reverse]
      exact hc
    rw [hlast] at hnot
    simpa using hnot

theorem trim_trim (t : Text) : trim (trim t) = trim t := by
  by_cases h : trim t = []
  · rw [h]
    rfl
  · exact (isTrimmed_trim h).trim

end Text

namespace Expression

variable {s t : Text} {ts us : List Token}

/-! ## Tokens side by side -/

/-- The token is no literal that is left open. -/
def Token.IsClosed : Token → Prop
  | .literal _ closed => closed = true
  | .word _ | .sign _ => True

/-- A character that is no backslash and no closing quote goes into the literal. -/
theorem splitLiteral_cons {quote c : Char} (hescape : c ≠ '\\') (hquote : c ≠ quote) (r : Text) :
    splitLiteral quote (c :: r)
      = (c :: (splitLiteral quote r).1, (splitLiteral quote r).2.1, (splitLiteral quote r).2.2) := by
  rw [splitLiteral, if_neg hquote]
  · exact fun h => absurd h hescape
  · exact fun _ _ h => absurd h hescape

theorem splitLiteral_quote {quote : Char} (hescape : quote ≠ '\\') (r : Text) :
    splitLiteral quote (quote :: r) = ([quote], r, true) := by
  rw [splitLiteral, if_pos rfl]
  · exact fun h => absurd h hescape
  · exact fun _ _ h => absurd h hescape

/-- A character that is not read together with what follows it is no backslash. -/
private theorem ne_backslash {c : Char} {r : Text} (hlone : c = '\\' → r = [] → False)
    (hpair : ∀ d u, c = '\\' → r = d :: u → False) : c ≠ '\\' := by
  intro hc
  cases r with
  | nil => exact hlone hc rfl
  | cons d u => exact hpair d u hc rfl

/-- A literal that is closed goes no further. -/
theorem splitLiteral_append_of_closed {quote : Char} (hescape : quote ≠ '\\')
    (h : (splitLiteral quote s).2.2 = true) (t : Text) :
    splitLiteral quote (s ++ t) = ((splitLiteral quote s).1, (splitLiteral quote s).2.1 ++ t, true) := by
  fun_induction splitLiteral quote s with
  | case1 => cases h
  | case2 => cases h
  | case3 c r body rest closed hread ih =>
    simp only [hread] at ih h
    simp only [List.cons_append, splitLiteral, ih h]
  | case4 r =>
    rw [List.cons_append, splitLiteral_quote hescape]
  | case5 c r hlone hpair hquote body rest closed hread ih =>
    simp only [hread] at ih h
    rw [List.cons_append, splitLiteral_cons (ne_backslash hlone hpair) hquote, ih h]

/-- A literal that is open stays open behind another character than its quote. -/
theorem splitLiteral_concat_of_open {quote c : Char} (hc : c ≠ quote)
    (h : (splitLiteral quote s).2.2 = false) : (splitLiteral quote (s ++ [c])).2.2 = false := by
  fun_induction splitLiteral quote s with
  | case1 =>
    -- a backslash waits for its partner, any other character is taken as it is
    by_cases hlone : c = '\\'
    · rw [hlone]
      rfl
    · rw [List.nil_append, splitLiteral_cons hlone hc]
      rfl
  | case2 => rfl
  | case3 d r body rest closed hread ih =>
    simp only [hread] at ih h
    simp only [List.cons_append, splitLiteral, ih h]
  | case4 r => cases h
  | case5 d r hlone hpair hquote body rest closed hread ih =>
    simp only [hread] at ih h
    rw [List.cons_append, splitLiteral_cons (ne_backslash hlone hpair) hquote]
    exact ih h

/-- No word goes on from one text to the other. -/
def Apart (s t : Text) : Prop :=
  (∀ c ∈ s.getLast?, Text.isNameChar c = false) ∨ ∀ c ∈ t.head?, Text.isNameChar c = false

theorem Apart.of_suffix {r : Text} (h : Apart s t) (hr : r <:+ s) : Apart r t := by
  rcases h with hlast | hhead
  · refine .inl fun c hc => hlast c ?_
    obtain ⟨before, rfl⟩ := hr
    rw [List.getLast?_append, Option.mem_def.1 hc]
    rfl
  · exact .inr hhead

theorem isNameChar_of_isWordStart {c : Char} (h : isWordStart c = true) : Text.isNameChar c = true := by
  simp only [isWordStart, Text.isAlphabetic, Text.isNameChar, Text.isAlphanumeric, Char.isAlphanum,
    Bool.or_eq_true, Bool.and_eq_true] at h ⊢
  rcases h with (halpha | ⟨hascii, hproperty⟩) | hline
  · exact .inl (.inl (.inl halpha))
  · exact .inl (.inr ⟨hascii, .inl hproperty⟩)
  · exact .inr hline

/-- A word ends where it ends in its own text. -/
theorem span_append {c : Char} {r : Text} (hc : Text.isNameChar c = true) (h : Apart (c :: r) t) :
    (r ++ t).takeWhile Text.isNameChar = r.takeWhile Text.isNameChar ∧
      (r ++ t).dropWhile Text.isNameChar = r.dropWhile Text.isNameChar ++ t := by
  induction r generalizing c with
  | nil =>
    -- where the word ends, the other text must not go on with it
    have hhead : ∀ d ∈ t.head?, Text.isNameChar d = false :=
      h.resolve_left fun hlast => absurd hc (by simp [hlast c rfl])
    cases t with
    | nil => exact ⟨rfl, rfl⟩
    | cons d t =>
      have hd := hhead d rfl
      simp [List.takeWhile_cons_of_neg, List.dropWhile_cons_of_neg, hd]
  | cons d r ih =>
    by_cases hd : Text.isNameChar d = true
    · obtain ⟨htake, hdrop⟩ := ih hd (h.of_suffix (List.suffix_cons c _))
      simp [List.takeWhile_cons_of_pos, List.dropWhile_cons_of_pos, hd, htake, hdrop]
    · simp [List.takeWhile_cons_of_neg, List.dropWhile_cons_of_neg, hd]

/-- The tokens of two texts side by side: no literal goes on from one to the other, and no word does. -/
theorem tokens_append (hclosed : ∀ token ∈ tokens s, token.IsClosed) (happart : Apart s t) :
    tokens (s ++ t) = tokens s ++ tokens t := by
  fun_induction tokens s with
  | case1 => rfl
  -- a closed literal ends where it did
  | case2 c r hquote ih =>
    have hescape : c ≠ '\\' := by
      rintro rfl
      exact absurd hquote (by decide)
    obtain ⟨hclose, hrest⟩ := List.forall_mem_cons.1 hclosed
    have hsuffix : (splitLiteral c r).2.1 <:+ c :: r :=
      ⟨c :: (splitLiteral c r).1, by rw [List.cons_append, splitLiteral_append]⟩
    rw [List.cons_append, tokens, if_pos hquote, splitLiteral_append_of_closed hescape hclose,
      List.cons_append, ih hrest (happart.of_suffix hsuffix), show (splitLiteral c r).2.2 = true from hclose]
  -- a word ends where it did, as the texts are apart
  | case3 c r hquote hword ih =>
    obtain ⟨-, hrest⟩ := List.forall_mem_cons.1 hclosed
    obtain ⟨htake, hdrop⟩ := span_append (isNameChar_of_isWordStart hword) happart
    have hsuffix : r.dropWhile Text.isNameChar <:+ c :: r :=
      (List.dropWhile_suffix _).trans (List.suffix_cons c r)
    rw [List.cons_append, tokens, if_neg hquote, if_pos hword, htake, hdrop,
      ih hrest (happart.of_suffix hsuffix), List.cons_append]
  | case4 c r hquote hword ih =>
    obtain ⟨-, hrest⟩ := List.forall_mem_cons.1 hclosed
    rw [List.cons_append, tokens, if_neg hquote, if_neg hword,
      ih hrest (happart.of_suffix (List.suffix_cons c r)), List.cons_append]

/-! ## Balance side by side -/

/-- What is balanced leaves the brackets around it as they are. -/
theorem imbalanceFrom?_append_of_balanced {stack : List Char} (h : imbalanceFrom? stack ts = none)
    (below : List Char) (us : List Token) :
    imbalanceFrom? (stack ++ below) (ts ++ us) = imbalanceFrom? below us := by
  -- along the tokens; what lies below on the stack is not touched before they end
  induction ts generalizing stack with
  | nil =>
    cases stack with
    | nil => rfl
    | cons top rest => cases h
  | cons token ts ih =>
    rw [List.cons_append]
    cases token with
    | literal chars closed =>
      rw [imbalanceFrom?] at h ⊢
      split at h
      · next hclosed => rw [if_pos hclosed, ih h]
      · cases h
    | word chars =>
      rw [imbalanceFrom?] at h ⊢
      exact ih h
    | sign c =>
      rw [imbalanceFrom?] at h ⊢
      split at h
      · next hopening => rw [if_pos hopening, ← List.cons_append, ih h]
      · next hopening =>
        rw [if_neg hopening]
        split at h
        · exact ih h
        · cases stack with
          | nil => cases h
          | cons top rest =>
            simp only at h
            split at h
            · next htop =>
              simp only [List.cons_append, if_pos htop]
              exact ih h
            · cases h

/-- A scan that finds no imbalance goes on behind each token. -/
theorem imbalanceFrom?_cons {stack : List Char} {token : Token}
    (h : imbalanceFrom? stack (token :: ts) = none) :
    token.IsClosed ∧ ∃ stack', imbalanceFrom? stack' ts = none := by
  cases token with
  | literal chars closed =>
    rw [imbalanceFrom?] at h
    split at h
    · next hclosed => exact ⟨hclosed, stack, h⟩
    · cases h
  | word chars => exact ⟨trivial, stack, h⟩
  | sign c =>
    -- an opening bracket is pushed, a closing one takes its partner off, other signs do nothing
    refine ⟨trivial, ?_⟩
    rw [imbalanceFrom?] at h
    split at h
    · exact ⟨c :: stack, h⟩
    · split at h
      · exact ⟨stack, h⟩
      · cases stack with
        | nil => cases h
        | cons top rest =>
          simp only at h
          split at h
          · exact ⟨rest, h⟩
          · cases h

/-- What is balanced leaves no literal open. -/
theorem isClosed_of_imbalanceFrom? {stack : List Char} (h : imbalanceFrom? stack ts = none) :
    ∀ token ∈ ts, token.IsClosed := by
  induction ts generalizing stack with
  | nil => simp
  | cons token ts ih =>
    obtain ⟨hclosed, stack', hrest⟩ := imbalanceFrom?_cons h
    exact List.forall_mem_cons.2 ⟨hclosed, ih hrest⟩

theorem isClosed_of_imbalance? (h : imbalance? t = none) : ∀ token ∈ tokens t, token.IsClosed :=
  isClosed_of_imbalanceFrom? h

/-! ## Script side by side -/

/-- A sign of a value is written alike wherever it stands. -/
theorem rewriteSign_value (before before' : Option Char) (c : Char) (after after' : Option Token) :
    rewriteSign .value before c after = rewriteSign .value before' c after' := by
  simp [rewriteSign]

/-- In a value, what stands before a text matters only if it is a point. -/
theorem rewriteTokens_value_before {before : Option Char} (h : before ≠ some '.') (ts : List Token) :
    rewriteTokens .value before ts = rewriteTokens .value none ts := by
  fun_cases rewriteTokens .value before ts with
  | case1 | case2 | case4 => simp only [rewriteTokens]
  | case3 w r written =>
    simp only [rewriteTokens, written, if_neg h, reduceCtorEq, if_false]
  | case5 c r hpair =>
    rw [rewriteTokens, rewriteSign_value before none c r.head? r.head?]
    exact hpair

/-- The script of two texts side by side, unless they make one sign together. -/
theorem rewriteTokens_value_append (h : us.head? ≠ some (.sign '>')) (before : Option Char)
    (ts : List Token) : ∃ before', rewriteTokens .value before (ts ++ us)
      = rewriteTokens .value before ts ++ rewriteTokens .value before' us := by
  fun_induction rewriteTokens .value before ts with
  | case1 before => exact ⟨before, rfl⟩
  | case2 before t closed r ih =>
    obtain ⟨before', hr⟩ := ih
    exact ⟨before', by rw [List.cons_append, rewriteTokens, hr, List.append_assoc]⟩
  | case3 before w r written ih =>
    obtain ⟨before', hr⟩ := ih
    exact ⟨before', by rw [List.cons_append, rewriteTokens, hr, List.append_assoc]⟩
  | case4 before r ih =>
    obtain ⟨before', hr⟩ := ih
    exact ⟨before', by rw [List.cons_append, List.cons_append, rewriteTokens, hr, List.append_assoc]⟩
  | case5 before c r hpair ih =>
    obtain ⟨before', hr⟩ := ih
    refine ⟨before', ?_⟩
    rw [List.cons_append, rewriteTokens, hr, List.append_assoc,
      rewriteSign_value before before c (r ++ us).head? r.head?]
    -- a sign that stood alone still does
    intro r' hr' hc
    cases r with
    | nil => exact h (by rw [show us = _ from hr']; rfl)
    | cons token r => exact hpair r (by rw [(List.cons.inj hr').1]) hc

/-! ## White space around a text -/

/-- The code points of the white space characters. -/
private def blankCodes : List Nat :=
  [32, 9, 10, 11, 12, 13, 0x85, 0xA0, 0x1680, 0x2000, 0x2001, 0x2002, 0x2003, 0x2004, 0x2005, 0x2006,
    0x2007, 0x2008, 0x2009, 0x200A, 0x2028, 0x2029, 0x202F, 0x205F, 0x3000]

/-- White space is a sign that means nothing. -/
theorem meaningless_of_isBlank {c : Char} (h : Text.isBlank c = true) :
    isQuote c = false ∧ Text.isNameChar c = false ∧ isOpening c = false ∧ openingOf? c = none := by
  have hlow : ∀ n < 14, 9 ≤ n → n ∈ blankCodes := by decide
  have hspaces : ∀ k < 11, 0x2000 + k ∈ blankCodes := by decide
  have hcode : c.toNat ∈ blankCodes := by
    simp only [Text.isBlank, Bool.or_eq_true, Bool.and_eq_true, decide_eq_true_eq] at h
    rcases h with (((((((((h | ⟨hle, hge⟩) | h) | h) | h) | ⟨hle, hge⟩) | h) | h) | h) | h) | h
    any_goals
      rw [h]
      decide
    · exact hlow _ (by omega) hle
    · obtain ⟨k, hk⟩ := Nat.exists_eq_add_of_le hle
      rw [hk]
      exact hspaces k (by omega)
  -- there are few blanks, so each of them is looked at
  have hall : ∀ n ∈ blankCodes, isQuote (Char.ofNat n) = false ∧ Text.isNameChar (Char.ofNat n) = false ∧
      isOpening (Char.ofNat n) = false ∧ openingOf? (Char.ofNat n) = none := by decide +kernel
  have hc := hall c.toNat hcode
  rwa [Char.ofNat_toNat] at hc

theorem tokens_blank {c : Char} (h : Text.isBlank c = true) (t : Text) :
    tokens (c :: t) = .sign c :: tokens t := by
  obtain ⟨hquote, hname, -⟩ := meaningless_of_isBlank h
  apply Outline.tokens_sign hquote
  rw [← Bool.not_eq_true]
  intro hword
  rw [isNameChar_of_isWordStart hword] at hname
  cases hname

/-- White space behind a text closes no literal. -/
theorem isClosed_of_concat_blank {c : Char} (hc : Text.isBlank c = true)
    (h : ∀ token ∈ tokens (t ++ [c]), token.IsClosed) : ∀ token ∈ tokens t, token.IsClosed := by
  obtain ⟨hquote, hname, -⟩ := meaningless_of_isBlank hc
  have happart (s : Text) : Apart s [c] := .inr (by simpa using hname)
  fun_induction tokens t with
  | case1 => simp
  | case2 d r hd ih =>
    have hescape : d ≠ '\\' := by
      rintro rfl
      exact absurd hd (by decide)
    have hne : c ≠ d := by
      rintro rfl
      rw [hd] at hquote
      cases hquote
    rw [List.cons_append, tokens, if_pos hd] at h
    obtain ⟨hclose, hrest⟩ := List.forall_mem_cons.1 h
    cases hopen : (splitLiteral d r).2.2 with
    | true =>
      rw [splitLiteral_append_of_closed hescape hopen] at hrest
      exact List.forall_mem_cons.2 ⟨rfl, ih hrest⟩
    | false =>
      -- a literal that is open stays open, for the blank is no quote
      have hstill := splitLiteral_concat_of_open hne hopen
      rw [show (splitLiteral d (r ++ [c])).2.2 = true from hclose] at hstill
      cases hstill
  | case3 d r hd hword ih =>
    obtain ⟨-, hdrop⟩ := span_append (isNameChar_of_isWordStart hword) (happart (d :: r))
    rw [List.cons_append, tokens, if_neg hd, if_pos hword, hdrop] at h
    exact List.forall_mem_cons.2 ⟨trivial, ih (List.forall_mem_cons.1 h).2⟩
  | case4 d r hd hword ih =>
    rw [List.cons_append, tokens, if_neg hd, if_neg hword] at h
    exact List.forall_mem_cons.2 ⟨trivial, ih (List.forall_mem_cons.1 h).2⟩

/-- A sign that is no bracket at the end changes nothing. -/
theorem imbalanceFrom?_concat {c : Char} (hopening : isOpening c = false) (hclosing : openingOf? c = none)
    (stack : List Char) (ts : List Token) :
    imbalanceFrom? stack (ts ++ [.sign c]) = imbalanceFrom? stack ts := by
  fun_induction imbalanceFrom? stack ts with
  | case1 => simp [imbalanceFrom?, hopening, hclosing]
  | _ => simp_all [imbalanceFrom?]

theorem imbalance?_of_append_blanks {b : Text} (hb : ∀ c ∈ b, Text.isBlank c = true)
    (h : imbalance? (t ++ b) = none) : imbalance? t = none := by
  induction b generalizing t with
  | nil => rwa [List.append_nil] at h
  | cons c b ih =>
    obtain ⟨hc, hb⟩ := List.forall_mem_cons.1 hb
    obtain ⟨-, hname, hopening, hclosing⟩ := meaningless_of_isBlank hc
    have hconcat : imbalance? (t ++ [c]) = none := ih hb (by rwa [List.append_assoc])
    have hclosed := isClosed_of_concat_blank hc (isClosed_of_imbalance? hconcat)
    rw [imbalance?, tokens_append hclosed (.inr (by simpa using hname)), tokens_blank hc, tokens,
      imbalanceFrom?_concat hopening hclosing] at hconcat
    exact hconcat

theorem imbalance?_blanks_append {b : Text} (hb : ∀ c ∈ b, Text.isBlank c = true) (t : Text) :
    imbalance? (b ++ t) = imbalance? t := by
  induction b with
  | nil => rfl
  | cons c b ih =>
    obtain ⟨hc, hb⟩ := List.forall_mem_cons.1 hb
    obtain ⟨-, -, hopening, hclosing⟩ := meaningless_of_isBlank hc
    rw [← ih hb, List.cons_append, imbalance?, tokens_blank hc]
    simp [imbalanceFrom?, imbalance?, hopening, hclosing]

/-- A balanced text is balanced without the white space around it. -/
theorem imbalance?_trim (h : imbalance? t = none) : imbalance? (Text.trim t) = none := by
  obtain ⟨blanks, hblanks, ht⟩ := Text.exists_trim_append t
  rw [← ht, imbalance?_blanks_append fun c hc => Text.isBlank_of_mem_leadingBlanks hc] at h
  exact imbalance?_of_append_blanks hblanks h

end Expression

/-! ## Right-hand sides -/

namespace Statement

open Expression

variable {line left right before prompt behind : Text}

/-- The line gives the value of `right` to a target or to a name that it declares; `left` is what its
    script has on the left of the equals sign. -/
inductive Gives (line : Text) : (left right : Text) → Prop
  | assignment {target rest : Text} (hkeyword : keyword? (Text.trim line) = none)
      (hread : assignment? (Text.trim line) = some (target, .plain, rest))
      (htarget : imbalance? target = none) : Gives line (Translation.value target) (Text.trim rest)
  | declaration {kind : DeclarationKind} {name rest : Text}
      (hkeyword : keyword? (Text.trim line) = some (.declaration kind))
      (hread : declaration? ((Text.trim line).drop (headWord (Text.trim line)).length)
        = some (name, none, some rest)) :
      Gives line (Translation.declarationWord kind ++ ' ' :: name) (Text.trim rest)

/-- The right-hand side begins with the word `input`, so that the whole of it is a request. -/
def asksFirst (right : Text) : Bool := headWord right = text "input" && followsKeyword (right.drop 5)

theorem initializer_of_asksFirst (h : asksFirst (Text.trim right) = true) :
    Statement.initializer right = .input (promptOperand ((Text.trim right).drop 5)) := by
  rw [Statement.initializer]
  exact if_pos h

theorem initializer_of_not_asksFirst (h : asksFirst (Text.trim right) = false) :
    Statement.initializer right = .expression (Text.trim right) := by
  rw [Statement.initializer]
  exact if_neg (by rw [← asksFirst, h]; simp)

theorem initializer_trim (right : Text) :
    Statement.initializer (Text.trim right) = Statement.initializer right := by
  simp only [Statement.initializer, Text.trim_trim]

theorem classify_trim (line : Text) : classify (Text.trim line) = classify line := by
  simp only [classify, Text.trim_trim]

theorem head?_of_assignment? {t target rest : Text} {operator : AssignmentOperator}
    (h : assignment? t = some (target, operator, rest)) : t ≠ [] ∧ t.head? ≠ some '#' := by
  refine ⟨fun hnil => ?_, fun hhash => ?_⟩
  · rw [hnil] at h
    cases h
  · obtain ⟨r, rfl⟩ := List.head?_eq_some_iff.1 hhash
    have hname : Shape.name? Shape.isNameStart ('#' :: r) = none := by
      rw [Shape.name?, if_neg (by decide)]
    rw [assignment?, hname] at h
    cases h

theorem head?_of_keyword? {t : Text} {keyword : Keyword} (h : keyword? t = some keyword) :
    t ≠ [] ∧ t.head? ≠ some '#' := by
  refine ⟨fun hnil => ?_, fun hhash => ?_⟩
  · rw [hnil] at h
    cases h
  · obtain ⟨r, rfl⟩ := List.head?_eq_some_iff.1 hhash
    cases h

theorem Gives.trim (h : Gives line left right) : Text.trim right = right := by
  cases h <;> exact Text.trim_trim _

/-- A line that gives a value is an equation in the script. -/
theorem Gives.script (h : Gives line left right)
    (hoperand : imbalance? (Statement.initializer right).operand = none) :
    Translation.statement line (classify line)
      = left ++ (text " = " ++ (Translation.initializer (Statement.initializer right) ++ [';'])) := by
  rw [← classify_trim]
  -- both lines have the same right-hand side and differ in what stands before it
  cases h with
  | @assignment target rest hkeyword hread htarget =>
    rw [initializer_trim] at hoperand ⊢
    obtain ⟨hne, hhash⟩ := head?_of_assignment? hread
    have hbalanced : ∀ t ∈ [target, (Statement.initializer rest).operand], imbalance? t = none := by
      simp [htarget, hoperand]
    rw [Outline.classify_of_isTrimmed (Text.isTrimmed_trim hne) hhash, hkeyword]
    simp only [withoutKeyword, hread]
    cases hvalue : Statement.initializer rest with
    | expression operand | input prompt =>
      rw [hvalue] at hbalanced
      simp only [Outline.ifBalanced_eq hbalanced]
      simp [Translation.statement, Translation.initializer, AssignmentOperator.sign, text]
  | @declaration kind name rest hkeyword hread =>
    rw [initializer_trim] at hoperand ⊢
    obtain ⟨hne, hhash⟩ := head?_of_keyword? hkeyword
    have hbalanced : ∀ t ∈ [[], (Statement.initializer rest).operand], imbalance? t = none := by
      simp [imbalance?, tokens, imbalanceFrom?] at hoperand ⊢
      exact hoperand
    rw [Outline.classify_of_isTrimmed (Text.isTrimmed_trim hne) hhash, hkeyword]
    simp only [withKeyword, declarationOf, hread, Option.map_some, Option.getD_none, Option.getD_some,
      Outline.ifBalanced_eq hbalanced]
    simp [Translation.statement, Translation.declaration]

/-- A name, an equals sign and a value. -/
theorem gives_name (n : Outline.Name) (hright : Text.IsTrimmed right) (hline : '\n' ∉ right) :
    Gives (n.chars ++ (text " = " ++ right)) n.chars right := by
  have htrimmed : Text.trim (n.chars ++ (text " = " ++ right)) = n.chars ++ (text " = " ++ right) :=
    (n.isTrimmed.append (text " = ") hright).trim
  have hvalue : Text.trim (' ' :: right) = right :=
    Text.trim_blanks_append [' '] (by simp; decide) hright
  have hkeyword : keyword? (Text.trim (n.chars ++ (text " = " ++ right))) = none := by
    rw [htrimmed]
    exact n.keyword?_append (by simp [text]; decide)
  have hread : assignment? (Text.trim (n.chars ++ (text " = " ++ right)))
      = some (n.chars, .plain, ' ' :: right) := by
    rw [htrimmed]
    exact n.isWord.assignment?_append hline
  have hgives := Gives.assignment hkeyword hread n.isWord.imbalance?_eq_none
  rwa [n.value_chars, hvalue] at hgives

/-- A declaration of a name with a value. -/
theorem gives_declaration (kind : DeclarationKind) (n : Outline.Name) (hright : Text.IsTrimmed right)
    (hline : '\n' ∉ right) :
    Gives (kind.word ++ ' ' :: (n.chars ++ (text " = " ++ right)))
      (Translation.declarationWord kind ++ ' ' :: n.chars) right := by
  have hname : Text.IsTrimmed (n.chars ++ (text " = " ++ right)) := n.isTrimmed.append _ hright
  have hword : Text.IsTrimmed kind.word := by cases kind <;> decide
  have htrimmed : Text.trim (kind.word ++ ' ' :: (n.chars ++ (text " = " ++ right)))
      = kind.word ++ ' ' :: (n.chars ++ (text " = " ++ right)) := (hword.append [' '] hname).trim
  have hkeyword : keyword? (kind.word ++ ' ' :: (n.chars ++ (text " = " ++ right)))
      = some (.declaration kind) := by cases kind <;> rfl
  have hrest : (kind.word ++ ' ' :: (n.chars ++ (text " = " ++ right))).drop
        (headWord (kind.word ++ ' ' :: (n.chars ++ (text " = " ++ right)))).length
      = ' ' :: (n.chars ++ (text " = " ++ right)) := by cases kind <;> rfl
  have hvalue : Text.trimStart (' ' :: right) = right := by
    rw [Text.trimStart, List.dropWhile_cons_of_pos (by decide)]
    exact hright.trimStart
  -- name, sign and value, one after the other
  have hread : declaration? (' ' :: (n.chars ++ (text " = " ++ right)))
      = some (n.chars, none, some right) := by
    rw [declaration?, Shape.someBlanks_space hname]
    have hfound : Shape.name? Shape.isFoldedNameStart (n.chars ++ (text " = " ++ right))
        = some (n.chars, text " = " ++ right) :=
      n.isWord.name?_append (fun _ => isFoldedNameStart_of_isNameStart) (by simp [text]; decide)
    have hinitial : initialValue? (Text.trimStart (text " = " ++ right)) = some (some right) := by
      show initialValue? ('=' :: ' ' :: right) = _
      rw [initialValue?, hvalue]
      exact if_neg (by simp [hright.ne_nil, hline])
    simp only [hfound, Option.bind_eq_bind, Option.bind_some]
    show (initialValue? (Text.trimStart (text " = " ++ right))).map _ = _
    rw [hinitial]
    rfl
  have hgives : Gives (kind.word ++ ' ' :: (n.chars ++ (text " = " ++ right)))
      (Translation.declarationWord kind ++ ' ' :: n.chars) (Text.trim right) :=
    .declaration (by rw [htrimmed]; exact hkeyword) (by rw [htrimmed, hrest]; exact hread)
  rwa [hright.trim] at hgives

/-! ## Calls -/

/-- A part of an operand in the operators of the script, as it stands. -/
def inScript (t : Text) : Text := rewriteTokens .value none (tokens t)

/-- An operand with an input call in it: what stands before the call, its prompt and what follows it. -/
def withInputCall (before prompt behind : Text) : Text :=
  before ++ (text "input(" ++ (prompt ++ ')' :: behind))

theorem value_eq_inScript (t : Text) : Translation.value t = inScript (Text.trim t) := rfl

/-- A parenthesis behind a balanced text is a token of its own. -/
theorem tokens_append_parenthesis (hprompt : imbalance? prompt = none) (behind : Text) :
    tokens (prompt ++ ')' :: behind) = tokens prompt ++ .sign ')' :: tokens behind := by
  have hparenthesis : Apart prompt (')' :: behind) := .inr (by simp; decide)
  rw [tokens_append (isClosed_of_imbalance? hprompt) hparenthesis,
    Outline.tokens_sign (by decide) (by decide)]

theorem tokens_inputCall (hprompt : imbalance? prompt = none) (behind : Text) :
    tokens (text "input(" ++ (prompt ++ ')' :: behind))
      = .word (text "input") :: .sign '(' :: (tokens prompt ++ .sign ')' :: tokens behind) := by
  have hinput : tokens (text "input") = [.word (text "input")] := by decide +kernel
  have hword : tokens (text "input" ++ '(' :: (prompt ++ ')' :: behind))
      = tokens (text "input") ++ tokens ('(' :: (prompt ++ ')' :: behind)) :=
    tokens_append (by simp [hinput, Token.IsClosed]) (.inr (by simp; decide))
  rw [hinput, Outline.tokens_sign (by decide) (by decide), tokens_append_parenthesis hprompt] at hword
  exact hword

/-- What stands in parentheses is written between them in the script. -/
theorem rewriteTokens_parentheses (before : Option Char) (prompt behind : Text) :
    rewriteTokens .value before (.sign '(' :: (tokens prompt ++ .sign ')' :: tokens behind))
      = '(' :: (inScript prompt ++ ')' :: inScript behind) := by
  have hsign (c : Char) (hc : c = '(' ∨ c = ')') (before : Option Char) (ts : List Token) :
      rewriteTokens .value before (.sign c :: ts) = c :: rewriteTokens .value (some c) ts := by
    rcases hc with rfl | rfl <;> rw [rewriteTokens] <;> simp [rewriteSign]
  have hnext : (Token.sign ')' :: tokens behind).head? ≠ some (.sign '>') := by simp
  obtain ⟨before', hprompt⟩ := rewriteTokens_value_append hnext (some '(') (tokens prompt)
  -- neither of the parentheses is a point
  have hopen : some '(' ≠ some '.' := by simp
  have hclose : some ')' ≠ some '.' := by simp
  rw [hsign '(' (.inl rfl), hprompt, hsign ')' (.inr rfl), rewriteTokens_value_before hopen,
    rewriteTokens_value_before hclose]
  rfl

theorem rewriteTokens_inputCall (before : Option Char) (prompt behind : Text) :
    rewriteTokens .value before
        (.word (text "input") :: .sign '(' :: (tokens prompt ++ .sign ')' :: tokens behind))
      = text "input(" ++ (inScript prompt ++ ')' :: inScript behind) := by
  have hword : wordOperator? (text "input") = none := by decide
  rw [rewriteTokens, hword, rewriteTokens_parentheses]
  simp [text]

theorem inScript_parentheses (hprompt : imbalance? prompt = none) (behind : Text) :
    inScript ('(' :: (prompt ++ ')' :: behind)) = '(' :: (inScript prompt ++ ')' :: inScript behind) := by
  rw [inScript, Outline.tokens_sign (by decide) (by decide), tokens_append_parenthesis hprompt,
    rewriteTokens_parentheses]

/-- Parentheses that are closed before the text ends are not taken for the parentheses of the text. -/
theorem insideParentheses?_eq_none (hprompt : imbalance? prompt = none) (hbehind : behind ≠ []) :
    insideParentheses? ('(' :: (prompt ++ ')' :: behind)) = none := by
  have hstart : Text.dropStart? ['('] ('(' :: (prompt ++ ')' :: behind)) = some (prompt ++ ')' :: behind) :=
    Text.dropStart?_append ['('] _
  rw [insideParentheses?, hstart]
  apply Option.filter_eq_none_iff.2
  intro inner hinner hbalanced
  -- the parenthesis that ends the text is not the one that ends the prompt
  have hends := Text.dropEnd?_eq_some hinner
  obtain ⟨b, d, rfl⟩ := (List.eq_nil_or_concat behind).resolve_left hbehind
  have hinside : inner = prompt ++ ')' :: b := by
    rw [List.concat_eq_append, ← List.cons_append, ← List.append_assoc] at hends
    exact (List.append_inj_left' hends rfl).symm
  have hunmatched : imbalance? inner = some (.unmatched ')') := by
    rw [hinside, imbalance?, tokens_append_parenthesis hprompt]
    exact imbalanceFrom?_append_of_balanced hprompt [] _
  rw [isBalanced, hunmatched] at hbalanced
  cases hbalanced

theorem insideParentheses?_eq_prompt (hprompt : imbalance? prompt = none) :
    insideParentheses? ('(' :: (prompt ++ [')'])) = some prompt := by
  have hstart : Text.dropStart? ['('] ('(' :: (prompt ++ [')'])) = some (prompt ++ [')']) :=
    Text.dropStart?_append ['('] _
  rw [insideParentheses?, hstart]
  simp [Text.dropEnd?_append, Option.filter, isBalanced, hprompt]

/-- What is asked for by a right-hand side that begins with a call: the prompt of the call if nothing
    follows, and otherwise everything behind the word. -/
theorem promptOperand_inputCall (hprompt : imbalance? prompt = none)
    (htrim : Text.IsTrimmed ('(' :: (prompt ++ ')' :: behind))) :
    promptOperand ('(' :: (prompt ++ ')' :: behind)) =
      if behind = [] then if Text.trim prompt = [] then none else some (Text.trim prompt)
      else some ('(' :: (prompt ++ ')' :: behind)) := by
  simp only [promptOperand, htrim.trim]
  by_cases hbehind : behind = []
  · rw [hbehind, insideParentheses?_eq_prompt hprompt, if_pos rfl]
    simp
  · rw [insideParentheses?_eq_none hprompt hbehind, if_neg hbehind]
    simp

/-- A call that has something before it is written where it stands. -/
theorem inScript_withInputCall (hprompt : imbalance? prompt = none)
    (hclosed : ∀ token ∈ tokens before, token.IsClosed)
    (hlast : ∀ c ∈ before.getLast?, Text.isNameChar c = false) (behind : Text) :
    inScript (withInputCall before prompt behind)
      = withInputCall (inScript before) (inScript prompt) (inScript behind) := by
  have hnext : (Token.word (text "input") :: .sign '(' ::
      (tokens prompt ++ .sign ')' :: tokens behind)).head? ≠ some (.sign '>') := by simp
  obtain ⟨before', hscript⟩ := rewriteTokens_value_append hnext none (tokens before)
  rw [inScript, withInputCall, tokens_append hclosed (.inl hlast), tokens_inputCall hprompt, hscript,
    rewriteTokens_inputCall]
  rfl

/-- What follows the word ends where the whole operand ends. -/
theorem isTrimmed_parentheses
    (htrim : Text.trim (withInputCall [] prompt behind) = withInputCall [] prompt behind) :
    Text.IsTrimmed ('(' :: (prompt ++ ')' :: behind)) := by
  have hne : withInputCall [] prompt behind ≠ [] := List.cons_ne_nil _ _
  have hlast := (Text.isTrimmed_trim (htrim.symm ▸ hne)).last
  rw [htrim] at hlast
  refine ⟨List.cons_ne_nil _ _, by simp; decide, fun c hc => hlast c ?_⟩
  have happend := List.getLast?_append_of_ne_nil (text "input") (List.cons_ne_nil '(' (prompt ++ ')' :: behind))
  exact happend.trans hc

/-- A right-hand side that begins with a call is a request. -/
theorem initializer_inputCall (hprompt : imbalance? prompt = none)
    (htrim : Text.trim (withInputCall [] prompt behind) = withInputCall [] prompt behind) :
    Statement.initializer (withInputCall [] prompt behind) = .input
      (if behind = [] then if Text.trim prompt = [] then none else some (Text.trim prompt)
      else some ('(' :: (prompt ++ ')' :: behind))) := by
  have hasks : asksFirst (withInputCall [] prompt behind) = true := rfl
  rw [initializer_of_asksFirst (by rw [htrim]; exact hasks), htrim]
  exact congrArg _ (promptOperand_inputCall hprompt (isTrimmed_parentheses htrim))

/-- An input call in the right-hand side of an assignment or a declaration. If anything but the call comes
    first, then the script has the call where the line has it, with its own prompt and with the rest of
    the right-hand side around it. If the call stands alone, then the line asks for input with its prompt.
    And if the right-hand side goes on behind a call that comes first, then all of it is the prompt. -/
theorem script_of_inputCall (hline : Gives line left (withInputCall before prompt behind))
    (hprompt : imbalance? prompt = none)
    (hright : imbalance? (withInputCall before prompt behind) = none) :
    let script := Translation.statement line (classify line)
    (asksFirst (withInputCall before prompt behind) = false →
      (∀ token ∈ tokens before, token.IsClosed) → (∀ c ∈ before.getLast?, Text.isNameChar c = false) →
        script = left ++ (text " = " ++
          (withInputCall (inScript before) (inScript prompt) (inScript behind) ++ [';']))) ∧
    (before = [] → behind = [] → script = left ++ (text " = await input(" ++
      ((if Text.trim prompt = [] then text "\"\"" else Translation.value prompt) ++ text ");"))) ∧
    (before = [] → behind ≠ [] → script = left ++ (text " = await input((" ++
      (inScript prompt ++ ')' :: (inScript behind ++ text ");")))) := by
  intro script
  have htrim := hline.trim
  refine ⟨fun hother hclosed hlast => ?_, fun hbefore hbehind => ?_, fun hbefore hbehind => ?_⟩
  · have hvalue := initializer_of_not_asksFirst (by rw [htrim]; exact hother)
    rw [htrim] at hvalue
    have hscript := hline.script (by rw [hvalue]; exact hright)
    rw [show script = _ from hscript, hvalue, Translation.initializer, value_eq_inScript, htrim,
      inScript_withInputCall hprompt hclosed hlast]
  · subst hbefore hbehind
    have hvalue := initializer_inputCall hprompt htrim
    rw [if_pos rfl] at hvalue
    have hscript := hline.script (by
      rw [hvalue]
      split
      · simp [Initializer.operand, imbalance?, tokens, imbalanceFrom?]
      · exact imbalance?_trim hprompt)
    rw [show script = _ from hscript, hvalue]
    split
    · simp [Translation.initializer, Translation.inputCall, text]
    · simp [Translation.initializer, Translation.inputCall, text, value_eq_inScript, Text.trim_trim]
  · subst hbefore
    have hvalue := initializer_inputCall hprompt htrim
    rw [if_neg hbehind] at hvalue
    have hoperand : imbalance? ('(' :: (prompt ++ ')' :: behind)) = none := by
      -- the word in front of the parenthesis is no bracket
      rw [withInputCall, List.nil_append, imbalance?, tokens_inputCall hprompt] at hright
      rw [imbalance?, Outline.tokens_sign (by decide) (by decide), tokens_append_parenthesis hprompt]
      exact hright
    have hscript := hline.script (by rw [hvalue]; exact hoperand)
    have hrest := (isTrimmed_parentheses htrim).trim
    rw [show script = _ from hscript, hvalue, Translation.initializer, Translation.inputCall,
      value_eq_inScript, hrest, inScript_parentheses hprompt]
    simp [text]

/-- A sum that begins with another operand asks for input with the prompt of its call, and adds to the
    answer. -/
theorem script_of_inputCall_sum :
    let right := withInputCall (text "1 + ") (text "\"n)\"") (text " + 2")
    let assigned := text "x = " ++ right
    let declared := text "var x = " ++ right
    (Gives assigned (text "x") right ∧ Gives declared (text "let x") right ∧
        imbalance? (text "\"n)\"") = none ∧ imbalance? right = none) ∧
      Translation.statement assigned (classify assigned) = text "x = 1 + input(\"n)\") + 2;" ∧
      Translation.statement declared (classify declared) = text "let x = 1 + input(\"n)\") + 2;" := by
  intro right assigned declared
  let x : Outline.Name := ⟨['x'], ⟨'x', rfl, rfl⟩, by simp, by decide +kernel, by decide⟩
  have htrimmed : Text.IsTrimmed right := by decide +kernel
  have hnewline : '\n' ∉ right := by decide +kernel
  have hassigned : Gives assigned (text "x") right := gives_name x htrimmed hnewline
  have hdeclared : Gives declared (text "let x") right := gives_declaration .var x htrimmed hnewline
  have hprompt : imbalance? (text "\"n)\"") = none := by decide +kernel
  have hright : imbalance? right = none := by decide +kernel
  have hother : asksFirst right = false := by decide +kernel
  have hclosed : imbalance? (text "1 + ") = none := by decide +kernel
  have hlast : ∀ c ∈ (text "1 + ").getLast?, Text.isNameChar c = false := by
    rintro _ ⟨⟩
    decide
  have hscript {line left : Text} (hline : Gives line left right) :=
    (script_of_inputCall hline hprompt hright).1 hother (isClosed_of_imbalance? hclosed) hlast
  exact ⟨⟨hassigned, hdeclared, hprompt, hright⟩, (hscript hassigned).trans (by decide +kernel),
    (hscript hdeclared).trans (by decide +kernel)⟩

open Script in
/-- A sum that begins with a call asks for input with the whole sum as its prompt. -/
theorem inputCall_loses_sum :
    let script := (translate (text "Algorithm A\nx = input(\"a\") + \"b\"\nEndAlgorithm")).code
    let machine := Machine.start (.start 1000 .cumulative) 5 [text "c"] none
    (Program.parse (Translation.wrapped script)).toOption.map (fun program => (program.run machine).log)
      = some [.input (text "ab")] := by
  decide +kernel

end Statement

end Pseudocode
