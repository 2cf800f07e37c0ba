import Mathlib.Tactic.FinCases
import Pseudocode.Proofs.LineShapes
import Pseudocode.Proofs.Literal
import Pseudocode.Proofs.Outline

/-!
# The tokens of operands

A name, an integer and a string are made of inert tokens: closed literals, words without a meaning
and digits. Inert tokens neither open nor close a bracket, separate no items and are written in the
script as they are.
-/

namespace Pseudocode

/-! ## Inert tokens -/

namespace Expression

/-- The token does nothing but stand for itself. -/
def Token.IsInert : Token → Prop
  | .literal _ closed => closed = true
  | .word w => wordOperator? w = none
  | .sign c => c.isDigit = true

/-- A digit is none of the signs with a meaning. -/
theorem ne_of_isDigit {c d : Char} (hc : c.isDigit = true) (hd : d.isDigit = false) : c ≠ d := by
  rintro rfl
  rw [hc] at hd
  cases hd

variable {ts : List Token}

theorem imbalanceFrom?_append (h : ∀ token ∈ ts, token.IsInert) (stack : List Char)
    (r : List Token) : imbalanceFrom? stack (ts ++ r) = imbalanceFrom? stack r := by
  induction ts with
  | nil => rfl
  | cons token ts ih =>
    have hrest := ih fun token htoken => h token (List.mem_cons_of_mem _ htoken)
    have htoken := h token (by simp)
    rw [List.cons_append]
    cases token with
    | literal chars closed =>
      obtain rfl : closed = true := htoken
      rw [imbalanceFrom?, if_pos rfl]
      exact hrest
    | word w =>
      rw [imbalanceFrom?]
      exact hrest
    | sign c =>
      -- the signs of an operand are its digits
      have hopening : isOpening c = false := by
        simp [isOpening, ne_of_isDigit htoken (d := '(') (by decide),
          ne_of_isDigit htoken (d := '[') (by decide)]
      have hclosing : openingOf? c = none := by
        simp [openingOf?, ne_of_isDigit htoken (d := ')') (by decide),
          ne_of_isDigit htoken (d := ']') (by decide)]
      rw [imbalanceFrom?, hopening, hclosing]
      exact hrest

theorem segmentsFrom_append (h : ∀ token ∈ ts, token.IsInert) (depth : Nat) (current : Text)
    (r : List Token) : segmentsFrom depth current (ts ++ r)
      = segmentsFrom depth ((ts.flatMap Token.chars).reverse ++ current) r := by
  induction ts generalizing current with
  | nil => rfl
  | cons token ts ih =>
    have hrest := fun current =>
      ih (fun token htoken => h token (List.mem_cons_of_mem _ htoken)) current
    have htoken := h token (by simp)
    rw [List.cons_append, List.flatMap_cons, List.reverse_append, List.append_assoc, ← hrest]
    -- an inert token is no comma and opens or closes nothing
    cases token with
    | literal chars closed => rw [segmentsFrom]; simp
    | word w => rw [segmentsFrom]; simp
    | sign c =>
      have hopening : isOpening c = false := by
        simp [isOpening, ne_of_isDigit htoken (d := '(') (by decide),
          ne_of_isDigit htoken (d := '[') (by decide)]
      have hclosing : openingOf? c = none := by
        simp [openingOf?, ne_of_isDigit htoken (d := ')') (by decide),
          ne_of_isDigit htoken (d := ']') (by decide)]
      have hcomma : c ≠ ',' := ne_of_isDigit htoken (by decide)
      rw [segmentsFrom]
      simp [hopening, hclosing, hcomma, Token.chars]

/-- The token is written as it is in every context: it is inert, or a sign that no rule mentions. -/
def Token.IsKept : Token → Prop
  | .literal _ _ => True
  | .word w => wordOperator? w = none
  | .sign c => c ∉ ['≠', '≤', '≥', '<', '=']

theorem Token.IsInert.isKept {token : Token} (h : token.IsInert) : token.IsKept := by
  cases token with
  | literal chars closed => trivial
  | word w => exact h
  | sign c =>
    have hdigit : c.isDigit = true := h
    intro hmem
    fin_cases hmem <;> exact absurd hdigit (by decide)

/-- A kept token is written as it is, whatever stands before it. -/
private theorem rewriteTokens_cons {token : Token} (h : token.IsKept) (context : Context)
    (before : Option Char) (r : List Token) :
    ∃ before', rewriteTokens context before (token :: r)
      = token.chars ++ rewriteTokens context before' r := by
  cases token with
  | literal chars closed => exact ⟨none, by rw [rewriteTokens, Token.chars]⟩
  | word w =>
    refine ⟨none, ?_⟩
    have hw : wordOperator? w = none := h
    rw [rewriteTokens, Token.chars, hw]
    simp
  | sign c =>
    simp only [Token.IsKept, List.mem_cons, List.not_mem_nil, or_false, not_or] at h
    obtain ⟨hne, hle, hge, hless, hequal⟩ := h
    refine ⟨some c, ?_⟩
    rw [rewriteTokens]
    · simp [rewriteSign, hne, hle, hge, hequal, Token.chars]
    · exact fun r' _ hc => hless hc

/-- Kept tokens are written as they are. -/
theorem rewriteTokens_eq (h : ∀ token ∈ ts, token.IsKept) (context : Context)
    (before : Option Char) : rewriteTokens context before ts = ts.flatMap Token.chars := by
  induction ts generalizing before with
  | nil => rfl
  | cons token ts ih =>
    obtain ⟨before', hcons⟩ := rewriteTokens_cons (h token (by simp)) context before ts
    rw [hcons, List.flatMap_cons,
      ih fun token htoken => h token (List.mem_cons_of_mem _ htoken)]

/-- Behind kept tokens and a blank the rest is written as it is behind a blank. -/
theorem rewriteTokens_append (h : ∀ token ∈ ts, token.IsKept) (context : Context)
    (before : Option Char) (r : List Token) :
    rewriteTokens context before (ts ++ .sign ' ' :: r)
      = ts.flatMap Token.chars ++ ' ' :: rewriteTokens context (some ' ') r := by
  induction ts generalizing before with
  | nil =>
    rw [List.nil_append, List.flatMap_nil, List.nil_append, rewriteTokens]
    · simp [rewriteSign]
    · simp
  | cons token ts ih =>
    obtain ⟨before', hcons⟩ :=
      rewriteTokens_cons (h token (by simp)) context before (ts ++ .sign ' ' :: r)
    rw [List.cons_append, hcons, List.flatMap_cons, List.append_assoc,
      ih fun token htoken => h token (List.mem_cons_of_mem _ htoken)]

/-- A text of kept tokens is the same in the script. -/
theorem rewrite_eq {t : Text} (ht : Text.IsTrimmed t) (h : ∀ token ∈ tokens t, token.IsKept)
    (context : Context) : rewrite context t = t := by
  rw [rewrite, ht.trim, rewriteTokens_eq h, chars_tokens]

/-! ## Items of lists -/

/-- The text is one item of a list: its tokens are inert, and they end where no name goes on. -/
structure IsItem (w : Text) : Prop where
  isTrimmed : Text.IsTrimmed w
  newline_not_mem : '\n' ∉ w
  isInert : ∀ token ∈ tokens w, token.IsInert
  tokens_append : ∀ t : Text, (∀ c ∈ t.head?, Text.isNameChar c = false) →
    tokens (w ++ t) = tokens w ++ tokens t

section

variable {w v : Text} {ws : List Text}

theorem join_cons_cons (w v : Text) (ws : List Text) :
    Text.join (text ", ") (w :: v :: ws) = w ++ ',' :: ' ' :: Text.join (text ", ") (v :: ws) := by
  simp [Text.join, text]

theorem join_singleton (w : Text) : Text.join (text ", ") [w] = w := by
  simp [Text.join]

/-- The comma and the blank between two items are tokens of their own. -/
theorem IsItem.tokens_join (h : IsItem w) (v : Text) (ws : List Text) :
    tokens (Text.join (text ", ") (w :: v :: ws))
      = tokens w ++ .sign ',' :: .sign ' ' :: tokens (Text.join (text ", ") (v :: ws)) := by
  rw [join_cons_cons, h.tokens_append _ (by simp [Text.isNameChar]; decide), tokens,
    if_neg (by decide), if_neg (by decide), tokens, if_neg (by decide), if_neg (by decide)]

/-- A list opens and closes no bracket. -/
theorem imbalanceFrom?_join (h : ∀ w ∈ ws, IsItem w) (stack : List Char) (r : List Token) :
    imbalanceFrom? stack (tokens (Text.join (text ", ") ws) ++ r) = imbalanceFrom? stack r := by
  induction ws with
  | nil => simp [Text.join, tokens]
  | cons w ws ih =>
    have hw := h w (by simp)
    have hrest := ih fun v hv => h v (List.mem_cons_of_mem _ hv)
    cases ws with
    | nil =>
      rw [join_singleton]
      exact imbalanceFrom?_append hw.isInert stack r
    | cons v ws =>
      rw [hw.tokens_join, List.append_assoc, imbalanceFrom?_append hw.isInert]
      exact hrest

theorem imbalance?_join (h : ∀ w ∈ ws, IsItem w) :
    imbalance? (Text.join (text ", ") ws) = none := by
  have hlist := imbalanceFrom?_join h [] []
  rw [List.append_nil] at hlist
  rw [imbalance?, hlist]
  rfl

theorem isKept_join (h : ∀ w ∈ ws, IsItem w) :
    ∀ token ∈ tokens (Text.join (text ", ") ws), token.IsKept := by
  induction ws with
  | nil => simp [Text.join, tokens]
  | cons w ws ih =>
    have hw := h w (by simp)
    have hrest := ih fun v hv => h v (List.mem_cons_of_mem _ hv)
    cases ws with
    | nil =>
      rw [join_singleton]
      exact fun token htoken => (hw.isInert token htoken).isKept
    | cons v ws =>
      rw [hw.tokens_join, List.forall_mem_append, List.forall_mem_cons, List.forall_mem_cons]
      exact ⟨fun token htoken => (hw.isInert token htoken).isKept, by simp [Token.IsKept],
        by simp [Token.IsKept], hrest⟩

/-- The segments of a list are its items, all but the first with a blank before them. -/
theorem segmentsFrom_join (h : ∀ v ∈ w :: ws, IsItem v) (current : Text) :
    segmentsFrom 0 current (tokens (Text.join (text ", ") (w :: ws)))
      = (current.reverse ++ w) :: ws.map (' ' :: ·) := by
  induction ws generalizing w current with
  | nil =>
    have hw := segmentsFrom_append (h w (by simp)).isInert 0 current []
    rw [List.append_nil, chars_tokens] at hw
    rw [join_singleton, hw, segmentsFrom]
    simp
  | cons v ws ih =>
    have hw := h w (by simp)
    -- a comma ends a segment, and the next one begins with the space behind it
    have hcomma (current : Text) (r : List Token) :
        segmentsFrom 0 current (.sign ',' :: .sign ' ' :: r)
          = current.reverse :: segmentsFrom 0 [' '] r := rfl
    rw [hw.tokens_join, segmentsFrom_append hw.isInert, hcomma,
      ih fun v hv => h v (List.mem_cons_of_mem _ hv), chars_tokens]
    simp

/-- The items of a list are found between its commas. -/
theorem splitList_join (h : ∀ w ∈ ws, IsItem w) : splitList (Text.join (text ", ") ws) = ws := by
  cases ws with
  | nil =>
    simp [Text.join, splitList, tokens, segmentsFrom, Text.trim, Text.trimStart, Text.trimEnd]
  | cons w ws =>
    have hw := (h w (by simp)).isTrimmed
    -- the space behind each comma is trimmed off again
    have hitems : (segmentsFrom 0 [] (tokens (Text.join (text ", ") (w :: ws)))).map Text.trim
        = w :: ws := by
      rw [segmentsFrom_join h, List.map_cons, List.map_map, List.reverse_nil, List.nil_append, hw.trim]
      congr 1
      refine List.map_congr_left (fun v hv => ?_) |>.trans (List.map_id ws)
      have hv := (h v (List.mem_cons_of_mem _ hv)).isTrimmed
      exact Text.trim_blanks_append [' '] (by simp; decide) hv
    rw [splitList, hitems]
    split
    · rename_i hempty
      exact absurd (List.cons.inj hempty).1 hw.ne_nil
    · rfl

theorem newline_not_mem_items (h : ∀ w ∈ ws, IsItem w) : '\n' ∉ Text.join (text ", ") ws := by
  induction ws with
  | nil => simp [Text.join]
  | cons w ws ih =>
    have hw := (h w (by simp)).newline_not_mem
    have hrest := ih fun v hv => h v (List.mem_cons_of_mem _ hv)
    cases ws with
    | nil => rwa [join_singleton]
    | cons v ws =>
      rw [join_cons_cons]
      simp [hw, hrest]

theorem isTrimmed_join (h : ∀ v ∈ w :: ws, IsItem v) :
    Text.IsTrimmed (Text.join (text ", ") (w :: ws)) := by
  induction ws generalizing w with
  | nil =>
    rw [join_singleton]
    exact (h w (by simp)).isTrimmed
  | cons v ws ih =>
    have hrest := ih fun v hv => h v (List.mem_cons_of_mem _ hv)
    have hlist := (h w (by simp)).isTrimmed.append [',', ' '] hrest
    rw [join_cons_cons]
    simpa using hlist

end

/-! ## Strings -/

section

open Script

/-- What is escaped neither closes a literal nor leaves it open. -/
private theorem splitLiteral_escapeChar (c : Char) (r : Text) :
    splitLiteral '"' (escapeChar c ++ r)
      = (escapeChar c ++ (splitLiteral '"' r).1, (splitLiteral '"' r).2) := by
  unfold escapeChar
  split
  · rfl
  split
  · rfl
  split
  · rfl
  · rename_i hquote hescape _
    rw [List.singleton_append, splitLiteral, if_neg hquote]
    · rfl
    · exact fun hc => absurd hc hescape
    · exact fun _ _ hc => absurd hc hescape

private theorem splitLiteral_escaped (value t : Text) :
    splitLiteral '"' (value.flatMap escapeChar ++ '"' :: t)
      = (value.flatMap escapeChar ++ ['"'], t, true) := by
  induction value with
  | nil =>
    rw [List.flatMap_nil, List.nil_append, splitLiteral]
    · simp
    · simp
    · simp
  | cons c value ih =>
    rw [List.flatMap_cons, List.append_assoc, splitLiteral_escapeChar, ih, List.append_assoc]

/-- A string is one closed literal, whatever is in it. -/
theorem tokens_quote_append (value t : Text) :
    tokens (quote value ++ t) = .literal (quote value) true :: tokens t := by
  rw [quote, List.cons_append, List.append_assoc, List.singleton_append, tokens, if_pos (by rfl),
    splitLiteral_escaped]

theorem tokens_quote (value : Text) : tokens (quote value) = [.literal (quote value) true] := by
  have h := tokens_quote_append value []
  rwa [List.append_nil, tokens] at h

theorem isItem_quote (value : Text) : IsItem (quote value) where
  isTrimmed := by
    refine ⟨List.cons_ne_nil _ _, ?_, fun c hc => ?_⟩
    · rintro c ⟨⟩
      decide
    · rw [quote, List.getLast?_cons, List.getLast?_append] at hc
      obtain rfl : '"' = c := by simpa using hc
      decide
  newline_not_mem := newline_not_mem_quote value
  isInert := by
    rw [tokens_quote]
    rintro token htoken
    obtain rfl := List.mem_singleton.1 htoken
    rfl
  tokens_append t _ := by rw [tokens_quote_append, tokens_quote, List.singleton_append]

end

end Expression

/-! ## Words -/

namespace Outline

open Expression

/-- The classes of the characters of a name. -/
structure IsNameChar (c : Char) : Prop where
  blank : Text.isBlank c = false
  word : Text.isWordChar c = true
  name : Text.isNameChar c = true
  identifier : Text.isIdentifierChar c = true
  sign : c ∉ ['"', '\'', '#', '(', ')', ';', ',', '=', '<', '.', '[', '\r', '\n']

theorem isNameChar_of_plain {c : Char} (h : c.isAlphanum = true ∨ c = '_') : IsNameChar c := by
  rcases h with h | rfl
  · refine ⟨isBlank_of_isAlphanum h, ?_, ?_, ?_, ?_⟩
    · simp [Text.isWordChar, h]
    · simp [Text.isNameChar, Text.isAlphanumeric, h]
    · simp [Text.isIdentifierChar, h]
    · intro hmem
      fin_cases hmem <;> exact absurd h (by decide)
  · exact ⟨by decide, by decide, by decide, by decide, by decide⟩

/-- A name in ASCII, whether or not one of the languages gives a meaning to it. -/
structure IsWord (w : Text) : Prop where
  start : ∃ c ∈ w.head?, Shape.isNameStart c = true
  plain : ∀ c ∈ w, c.isAlphanum = true ∨ c = '_'

namespace IsWord

variable {w : Text} (h : IsWord w)

include h

theorem cons : ∃ c r, w = c :: r ∧ Shape.isNameStart c = true := by
  obtain ⟨c, hc, hstart⟩ := h.start
  obtain ⟨r, hr⟩ := List.head?_eq_some_iff.1 hc
  exact ⟨c, r, hr, hstart⟩

theorem isNameChar {c : Char} (hc : c ∈ w) : IsNameChar c := isNameChar_of_plain (h.plain c hc)

theorem not_isDigit_start : ∀ c ∈ w.head?, c.isDigit = false := by
  obtain ⟨c, r, hchars, hstart⟩ := h.cons
  rw [hchars]
  rintro _ ⟨⟩
  simp only [Shape.isNameStart, Bool.or_eq_true, decide_eq_true_eq] at hstart
  rcases hstart with halpha | rfl
  · exact Text.isDigit_of_isAlpha halpha
  · decide

/-- A name is one word. -/
theorem tokens_append {t : Text} (ht : ∀ c ∈ t.head?, Text.isNameChar c = false) :
    tokens (w ++ t) = .word w :: tokens t := by
  obtain ⟨c, r, hchars, hstart⟩ := h.cons
  have hplain : ∀ d ∈ c :: r, IsNameChar d := fun d hd => h.isNameChar (by rw [hchars]; exact hd)
  have hquote : isQuote c = false := by
    have hsign := (hplain c (by simp)).sign
    simp only [List.mem_cons, not_or] at hsign
    simp [isQuote, hsign]
  have hword : isWordStart c = true := by
    simp only [Shape.isNameStart, Bool.or_eq_true, decide_eq_true_eq] at hstart
    rcases hstart with halpha | rfl
    · simp [isWordStart, Text.isAlphabetic, halpha]
    · rfl
  have hr : ∀ d ∈ r, Text.isNameChar d = true := fun d hd =>
    (hplain d (List.mem_cons_of_mem _ hd)).name
  rw [hchars, List.cons_append, tokens, if_neg (by simp [hquote]), if_pos hword,
    Text.takeWhile_append_of_ends hr ht, Text.dropWhile_append_of_ends hr ht]

theorem isTrimmed : Text.IsTrimmed w := by
  obtain ⟨c, r, hchars, -⟩ := h.cons
  refine ⟨by simp [hchars], fun c hc => ?_, fun c hc => ?_⟩
  · exact (h.isNameChar (List.mem_of_mem_head? hc)).blank
  · exact (h.isNameChar (List.mem_of_mem_getLast? hc)).blank

end IsWord

namespace Name

variable (n : Name)

theorem isWord : IsWord n.chars := ⟨n.start, n.plain⟩

theorem chars_cons : ∃ c r, n.chars = c :: r ∧ Shape.isNameStart c = true := n.isWord.cons

theorem isNameChar {c : Char} (h : c ∈ n.chars) : IsNameChar c := n.isWord.isNameChar h

theorem tokens_append {t : Text} (ht : ∀ c ∈ t.head?, Text.isNameChar c = false) :
    tokens (n.chars ++ t) = .word n.chars :: tokens t := n.isWord.tokens_append ht

/-- A name has no meaning as an operator. -/
theorem wordOperator?_eq_none : wordOperator? n.chars = none := by
  have h := n.unreserved
  simp only [reservedWords, List.mem_append, List.mem_cons, List.not_mem_nil, or_false, not_or] at h
  simp [wordOperator?, h]

theorem isTrimmed : Text.IsTrimmed n.chars := n.isWord.isTrimmed

end Name

namespace Digits

variable (d : Digits)

theorem isNameChar {c : Char} (h : c ∈ d.chars) : IsNameChar c :=
  isNameChar_of_plain (.inl (by simp [Char.isAlphanum, d.digits c h]))

theorem isTrimmed : Text.IsTrimmed d.chars :=
  ⟨d.ne_nil, fun _ hc => (d.isNameChar (List.mem_of_mem_head? hc)).blank,
    fun _ hc => (d.isNameChar (List.mem_of_mem_getLast? hc)).blank⟩

end Digits

theorem isWordStart_of_isDigit {c : Char} (hc : c.isDigit = true) : isWordStart c = false := by
  have hascii : c.toNat < 128 := toNat_lt_of_isAlphanum (by simp [Char.isAlphanum, hc])
  have halpha : c.isAlpha = false := by
    by_contra hletter
    rw [Bool.not_eq_false] at hletter
    simp [Text.isDigit_of_isAlpha hletter] at hc
  simp [isWordStart, Text.isAlphabetic, halpha, hascii, ne_of_isDigit hc (d := '_') (by decide)]

/-- Every digit is a token of its own. -/
theorem tokens_digits_append {digits : Text} (h : ∀ c ∈ digits, c.isDigit = true) (t : Text) :
    tokens (digits ++ t) = digits.map Token.sign ++ tokens t := by
  induction digits with
  | nil => rfl
  | cons c digits ih =>
    have hc := h c (by simp)
    have hquote : isQuote c = false := by
      simp [isQuote, ne_of_isDigit hc (d := '"') (by decide), ne_of_isDigit hc (d := '\'') (by decide)]
    rw [List.cons_append, tokens, if_neg (by simp [hquote]), if_neg (by simp [isWordStart_of_isDigit hc]),
      ih fun c hc => h c (List.mem_cons_of_mem _ hc)]
    rfl

/-- A string is one literal. -/
theorem Quoted.tokens_append (q : Quoted) (t : Text) :
    tokens ('"' :: (q.chars ++ ['"']) ++ t)
      = .literal ('"' :: (q.chars ++ ['"'])) true :: tokens t := by
  rw [← Script.quote_of_isPlain q.plain]
  exact tokens_quote_append q.chars t

/-! ## Operands -/

namespace Bound

/-- The tokens of a bound. -/
def tokens : Bound → List Token
  | name n => [.word n.chars]
  | digits d => d.chars.map .sign

theorem isNameChar (b : Bound) {c : Char} (h : c ∈ b.source) : IsNameChar c := by
  cases b with
  | name n => exact n.isNameChar h
  | digits d => exact d.isNameChar h

theorem isTrimmed (b : Bound) : Text.IsTrimmed b.source := by
  cases b with
  | name n => exact n.isTrimmed
  | digits d => exact d.isTrimmed

end Bound

namespace Operand

/-- The tokens of an operand. -/
def tokens : Operand → List Token
  | bound b => b.tokens
  | quoted q => [.literal ('"' :: (q.chars ++ ['"'])) true]

variable (o : Operand)

theorem tokens_append {t : Text} (ht : ∀ c ∈ t.head?, Text.isNameChar c = false) :
    Expression.tokens (o.source ++ t) = o.tokens ++ Expression.tokens t := by
  cases o with
  | bound b =>
    cases b with
    | name n => exact n.tokens_append ht
    | digits d => exact tokens_digits_append d.digits t
  | quoted q => exact q.tokens_append t

theorem tokens_source : Expression.tokens o.source = o.tokens := by
  have h := o.tokens_append (t := []) (by simp)
  rw [List.append_nil, Expression.tokens, List.append_nil] at h
  exact h

theorem isInert : ∀ token ∈ o.tokens, token.IsInert := by
  cases o with
  | bound b =>
    cases b with
    | name n =>
      intro token htoken
      obtain rfl := List.mem_singleton.1 htoken
      exact n.wordOperator?_eq_none
    | digits d =>
      intro token htoken
      obtain ⟨c, hc, rfl⟩ := List.mem_map.1 htoken
      exact d.digits c hc
  | quoted q =>
    intro token htoken
    obtain rfl := List.mem_singleton.1 htoken
    rfl

theorem chars_tokens : o.tokens.flatMap Token.chars = o.source := by
  rw [← o.tokens_source, Expression.chars_tokens]

/-- An operand begins with a character of a name or with a quotation mark. -/
theorem source_cons : ∃ c r, o.source = c :: r ∧ (IsNameChar c ∨ c = '"') := by
  cases o with
  | bound b =>
    obtain ⟨c, r, hsource⟩ := List.exists_cons_of_ne_nil b.isTrimmed.ne_nil
    exact ⟨c, r, hsource, .inl (b.isNameChar (by rw [hsource]; simp))⟩
  | quoted q => exact ⟨'"', _, rfl, .inr rfl⟩

theorem isTrimmed : Text.IsTrimmed o.source := by
  cases o with
  | bound b => exact b.isTrimmed
  | quoted q =>
    refine ⟨by simp [source], ?_, ?_⟩
    · rintro c ⟨⟩
      decide
    · intro c hc
      rw [source, List.getLast?_cons, List.getLast?_append] at hc
      obtain rfl : '"' = c := by simpa using hc
      decide

theorem newline_not_mem : '\n' ∉ o.source := by
  cases o with
  | bound b =>
    intro h
    exact absurd (b.isNameChar h).blank (by decide)
  | quoted q =>
    have hinside : '\n' ∉ q.chars := fun h => (q.plain _ h).2.2 rfl
    simp [source, hinside]

end Operand

/-- An operand is one item of a list. -/
theorem Operand.isItem (o : Operand) : IsItem o.source where
  isTrimmed := o.isTrimmed
  newline_not_mem := o.newline_not_mem
  isInert := by
    rw [o.tokens_source]
    exact o.isInert
  tokens_append t ht := by rw [o.tokens_append ht, o.tokens_source]

/-! ## Lists -/

theorem isItem_operands (os : List Operand) : ∀ w ∈ os.map Operand.source, IsItem w := by
  intro w hw
  obtain ⟨o, -, rfl⟩ := List.mem_map.1 hw
  exact o.isItem

/-- The tokens of operands between commas. -/
def listTokens : List Operand → List Token
  | [] => []
  | [o] => o.tokens
  | o :: os => o.tokens ++ .sign ',' :: .sign ' ' :: listTokens os

theorem listTokens_cons_cons (o o' : Operand) (os : List Operand) :
    listTokens (o :: o' :: os) = o.tokens ++ .sign ',' :: .sign ' ' :: listTokens (o' :: os) := rfl

theorem list_cons_cons (o o' : Operand) (os : List Operand) :
    list (o :: o' :: os) = o.source ++ ',' :: ' ' :: list (o' :: os) :=
  join_cons_cons _ _ _

theorem list_singleton (o : Operand) : list [o] = o.source := join_singleton _

theorem tokens_list_append {t : Text} (ht : ∀ c ∈ t.head?, Text.isNameChar c = false) :
    ∀ os : List Operand, tokens (list os ++ t) = listTokens os ++ tokens t
  | [] => rfl
  | [o] => by rw [list_singleton, o.tokens_append ht, listTokens]
  | o :: o' :: os => by
    rw [list_cons_cons, List.append_assoc, o.tokens_append (by simp [Text.isNameChar]; decide),
      listTokens_cons_cons, List.append_assoc, List.cons_append, List.cons_append, tokens,
      if_neg (by decide), if_neg (by decide), tokens, if_neg (by decide), if_neg (by decide),
      tokens_list_append ht (o' :: os), List.cons_append, List.cons_append]

theorem tokens_list (os : List Operand) : tokens (list os) = listTokens os := by
  have h := tokens_list_append (t := []) (by simp) os
  rw [List.append_nil, tokens, List.append_nil] at h
  exact h

theorem imbalanceFrom?_list (stack : List Char) (r : List Token) (os : List Operand) :
    imbalanceFrom? stack (listTokens os ++ r) = imbalanceFrom? stack r := by
  rw [← tokens_list]
  exact imbalanceFrom?_join (isItem_operands os) stack r

theorem isKept_list (os : List Operand) : ∀ token ∈ listTokens os, token.IsKept := by
  rw [← tokens_list]
  exact isKept_join (isItem_operands os)

/-- The items of a list are its operands. -/
theorem splitList_list (os : List Operand) : splitList (list os) = os.map Operand.source :=
  splitList_join (isItem_operands os)

theorem newline_not_mem_list (os : List Operand) : '\n' ∉ list os :=
  newline_not_mem_items (isItem_operands os)

theorem isTrimmed_list (o : Operand) (os : List Operand) : Text.IsTrimmed (list (o :: os)) :=
  isTrimmed_join (isItem_operands (o :: os))

end Outline

end Pseudocode
