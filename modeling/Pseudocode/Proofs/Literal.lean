import Pseudocode.Proofs.PhraseReading

/-!
# Literals

The numbers and strings of the script as they are written, and the tokens that they are read as.

* `Literal`          an unsigned decimal: digits with a point anywhere, then an exponent
* `number?_source`   a decimal is read as the double that is nearest to it
* `string?_quote`    a string is read as what has been escaped in it, whatever it is
-/

namespace Pseudocode.Script

open Reader

/-! ## Decimals -/

/-- The exponent of a decimal. -/
structure Exponent where
  isUpper : Bool
  /-- Whether the sign is a minus, if there is one. -/
  sign : Option Bool
  digits : Text
  isDigit : ∀ c ∈ digits, c.isDigit = true
  ne_nil : digits ≠ []

namespace Exponent

/-- The letter that begins the exponent. -/
def mark (e : Exponent) : Char := if e.isUpper then 'E' else 'e'

/-- The sign of the exponent. -/
def signText (e : Exponent) : Text :=
  match e.sign with
  | none => []
  | some isMinus => if isMinus then ['-'] else ['+']

/-- The exponent as it is written. -/
def source (e : Exponent) : Text := e.mark :: (e.signText ++ e.digits)

/-- The exponent as a number. -/
def value (e : Exponent) : Int :=
  if e.sign = some true then -Numeral.digitsValue e.digits else Numeral.digitsValue e.digits

end Exponent

/-- An unsigned decimal: digits before or after a point or both, and an optional exponent. -/
structure Literal where
  whole : Text
  /-- The digits behind the point, if there is one. -/
  fraction : Option Text
  exponent : Option Exponent
  isDigit : ∀ c ∈ whole ++ fraction.getD [], c.isDigit = true
  ne_nil : whole ++ fraction.getD [] ≠ []

namespace Literal

/-- The point and what follows it. -/
def pointText (l : Literal) : Text :=
  match l.fraction with
  | none => []
  | some digits => '.' :: digits

/-- The exponent as it is written. -/
def exponentText (l : Literal) : Text :=
  match l.exponent with
  | none => []
  | some e => e.source

/-- The decimal as it is written. -/
def source (l : Literal) : Text := l.whole ++ (l.pointText ++ l.exponentText)

/-- The digits of the decimal and the power of ten that they count. -/
def scientific (l : Literal) : Decimal.Scientific :=
  ⟨Numeral.digitsValue (l.whole ++ l.fraction.getD []),
    (l.exponent.map Exponent.value).getD 0 - (l.fraction.getD []).length⟩

/-- The double that is nearest to the decimal. -/
def value (l : Literal) : Float :=
  Float.ofBits (UInt64.ofNat (Decimal.nearestBits l.scientific.digits l.scientific.exponent))

end Literal

/-! ### Exponents -/

variable {t : Text}

private theorem not_isDigit_of_endsWord (ht : EndsWord t) : ∀ c ∈ t.head?, c.isDigit = false := by
  intro c hc
  have hword := ht c hc
  grind [Text.isIdentifierChar, Char.isAlphanum]

/-- The digits of an exponent begin with no sign. -/
private theorem head_digits (e : Exponent) (t : Text) :
    ∃ c r, e.digits ++ t = c :: r ∧ c.isDigit = true := by
  obtain ⟨c, r, hcons⟩ := List.exists_cons_of_ne_nil e.ne_nil
  exact ⟨c, r ++ t, by rw [hcons, List.cons_append], e.isDigit c (by simp [hcons])⟩

private theorem Exponent.mark_eq (e : Exponent) : (e.mark = 'e' || e.mark = 'E') = true := by
  unfold mark
  split <;> rfl

/-- An exponent in front of a text is read with all the digits that follow it. -/
theorem Exponent.exponentStart_append (e : Exponent) (t : Text) :
    Numeral.exponentStart (e.source ++ t) = e.source ++ (Numeral.splitDigits t).1 := by
  have hdigits : (Numeral.splitDigits (e.digits ++ t)).1 = e.digits ++ (Numeral.splitDigits t).1 :=
    List.takeWhile_append_of_pos e.isDigit
  have hne : e.digits ≠ [] := e.ne_nil
  rw [source, List.cons_append, List.append_assoc]
  simp only [Numeral.exponentStart, e.mark_eq, if_true]
  cases hsign : e.sign with
  | some isMinus =>
    cases isMinus <;> simp [signText, hsign, hdigits, hne]
  | none =>
    -- without a sign the digits follow, and no digit is taken for a sign
    obtain ⟨c, r, hcons, hdigit⟩ := head_digits e t
    simp only [signText, hsign, List.nil_append]
    split
    · rename_i heq
      rw [hcons, List.cons.injEq] at heq
      exact absurd (heq.1 ▸ hdigit) (by decide)
    · rename_i heq
      rw [hcons, List.cons.injEq] at heq
      exact absurd (heq.1 ▸ hdigit) (by decide)
    · simp [hdigits, hne]

theorem Exponent.exponentStart_source (e : Exponent) (ht : EndsWord t) :
    Numeral.exponentStart (e.source ++ t) = e.source := by
  have hdigits := Numeral.splitDigits_append (List.forall_mem_nil _) t (not_isDigit_of_endsWord ht)
  rw [e.exponentStart_append, ← List.nil_append t, hdigits, List.append_nil]

theorem Exponent.exponent?_source (e : Exponent) : Numeral.exponent? e.source = some e.value := by
  have hdigits := Numeral.splitDigits_append e.isDigit [] (by simp)
  have hne : e.digits ≠ [] := e.ne_nil
  rw [List.append_nil] at hdigits
  simp only [source, Numeral.exponent?, e.mark_eq, if_true]
  cases hsign : e.sign with
  | some isMinus =>
    cases isMinus <;> simp [signText, value, hsign, Numeral.splitSign, hdigits, hne]
  | none =>
    obtain ⟨c, r, hcons, hdigit⟩ := head_digits e []
    rw [List.append_nil] at hcons
    have hplain : Numeral.splitSign e.digits = (false, e.digits) := by
      rw [hcons]
      exact Numeral.splitSign_of_isDigit hdigit
    simp [signText, value, hsign, hplain, hdigits, hne]

/-! ### Numbers -/

namespace Literal

variable (l : Literal)

theorem whole_isDigit : ∀ c ∈ l.whole, c.isDigit = true :=
  fun c hc => l.isDigit c (List.mem_append_left _ hc)

theorem exponentText_exponentStart (ht : EndsWord t) :
    Numeral.exponentStart (l.exponentText ++ t) = l.exponentText := by
  unfold exponentText
  cases l.exponent with
  | some e => exact e.exponentStart_source ht
  | none =>
    cases t with
    | nil => rfl
    | cons c t =>
      -- the letter of an exponent would be the word going on
      have he : c ≠ 'e' ∧ c ≠ 'E' := by
        constructor <;> rintro rfl <;> exact absurd (ht _ rfl) (by decide)
      simp [Numeral.exponentStart, he]

theorem exponent?_exponentText :
    Numeral.exponent? l.exponentText = some ((l.exponent.map Exponent.value).getD 0) := by
  unfold exponentText
  cases l.exponent with
  | none => rfl
  | some e => exact e.exponent?_source

/-- Nothing but the letter of an exponent begins what follows the digits. -/
private theorem head_exponentText (ht : EndsWord t) : ∀ c ∈ (l.exponentText ++ t).head?,
    c.isDigit = false ∧ (t.head? ≠ some '.' → c ≠ '.') := by
  unfold exponentText
  cases l.exponent with
  | none =>
    intro c hc
    refine ⟨not_isDigit_of_endsWord ht c hc, ?_⟩
    rintro hpoint rfl
    exact hpoint hc
  | some e =>
    rintro _ ⟨⟩
    unfold Exponent.mark
    split <;> exact ⟨rfl, fun _ => by decide⟩

/-- The parts that a decimal is split into. -/
private theorem splitDigits_source (ht : EndsWord t) :
    Numeral.splitDigits (l.source ++ t) = (l.whole, l.pointText ++ (l.exponentText ++ t)) := by
  rw [source, List.append_assoc, List.append_assoc]
  refine Numeral.splitDigits_append l.whole_isDigit _ ?_
  unfold pointText
  cases l.fraction with
  | none => exact fun c hc => (l.head_exponentText ht c hc).1
  | some digits => simp

private theorem splitDigits_fraction {digits : Text} (h : l.fraction = some digits)
    (ht : EndsWord t) :
    Numeral.splitDigits (digits ++ (l.exponentText ++ t)) = (digits, l.exponentText ++ t) := by
  refine Numeral.splitDigits_append (fun c hc => l.isDigit c (by simp [h, hc])) _ ?_
  exact fun c hc => (l.head_exponentText ht c hc).1

/-- Without a fraction, no point follows the digits. -/
private theorem exponentText_ne_point (ht : EndsWord t) (hpoint : t.head? ≠ some '.') (r : Text) :
    l.exponentText ++ t ≠ '.' :: r := by
  intro heq
  exact (l.head_exponentText ht '.' (by rw [heq]; rfl)).2 hpoint rfl

private theorem isEmpty_both {digits : Text} (h : l.fraction = some digits) :
    (l.whole.isEmpty && digits.isEmpty) = false := by
  have hne := l.ne_nil
  rw [h, Option.getD_some, ne_eq, List.append_eq_nil_iff] at hne
  exact Bool.eq_false_iff.2 (by simpa using hne)

theorem decimal?_source : Numeral.decimal? l.source = some l.scientific := by
  have hends : EndsWord [] := by simp [EndsWord]
  have hsplit := l.splitDigits_source hends
  have hexponent := l.exponent?_exponentText
  have hne := l.ne_nil
  simp only [List.append_nil] at hsplit
  unfold Numeral.decimal?
  -- with a fraction there is a point; without one the exponent must not look like one
  cases hfraction : l.fraction with
  | none =>
    have hwhole : l.whole ≠ [] := by simpa [hfraction] using hne
    simp only [hsplit, pointText, hfraction, List.nil_append]
    split
    · rename_i r heq
      exact absurd (by rw [List.append_nil, heq]) (l.exponentText_ne_point hends (by simp) r)
    · simp [hwhole, hexponent, scientific, hfraction]
  | some digits =>
    have hdigits := l.splitDigits_fraction hfraction hends
    have hboth := l.isEmpty_both hfraction
    simp only [List.append_nil] at hdigits
    simp [hsplit, pointText, hfraction, hdigits, hboth, hexponent, scientific]

theorem head_source : ∃ c r, l.source = c :: r ∧ (c.isDigit = true ∨ c = '.') := by
  unfold source pointText
  cases hwhole : l.whole with
  | cons c r => exact ⟨c, _, rfl, .inl (l.whole_isDigit c (by simp [hwhole]))⟩
  | nil =>
    have hne := l.ne_nil
    cases hfraction : l.fraction with
    | none => simp [hwhole, hfraction] at hne
    | some digits => exact ⟨'.', _, rfl, .inr rfl⟩

/-- A decimal begins with no sign. -/
theorem splitSign_source : Numeral.splitSign l.source = (false, l.source) := by
  obtain ⟨c, r, hcons, hdigit | rfl⟩ := l.head_source
  · rw [hcons]
    exact Numeral.splitSign_of_isDigit hdigit
  · rw [hcons]
    rfl

theorem float?_source : Numeral.float? l.source = some l.value := by
  simp [Numeral.float?, Numeral.bits?, l.splitSign_source, l.decimal?_source, value, Double.signBit]

/-- A decimal is a token where neither a word nor a point goes on. -/
theorem number?_source (ht : EndsWord t) (hpoint : t.head? ≠ some '.') :
    Token.number? (l.source ++ t) = some (l.value, l.source.length) := by
  have hsplit := l.splitDigits_source ht
  have hexponent := l.exponentText_exponentStart ht
  have htake : (l.source ++ t).take l.source.length = l.source := List.take_left
  unfold Token.number?
  cases hfraction : l.fraction with
  | none =>
    have hwhole : l.whole ≠ [] := by simpa [hfraction] using l.ne_nil
    have hlength : l.whole.length + l.exponentText.length = l.source.length := by
      simp [source, pointText, hfraction]
    simp only [hsplit, pointText, hfraction, List.nil_append]
    split
    -- a point behind the digits would make a fraction of what follows
    · rename_i r heq
      exact absurd heq (l.exponentText_ne_point ht hpoint r)
    · simp [hwhole, Token.exponentLength, hexponent, hlength, htake, l.float?_source]
  | some digits =>
    have hdigits := l.splitDigits_fraction hfraction ht
    have hboth := l.isEmpty_both hfraction
    have hlength : l.whole.length + 1 + digits.length + l.exponentText.length
        = l.source.length := by
      simp only [source, pointText, hfraction, List.length_append, List.length_cons]
      omega
    simp [hsplit, pointText, hfraction, hdigits, hboth, Token.exponentLength, hexponent, hlength,
      htake, l.float?_source]

theorem skip_source (t : Text) : skip (l.source ++ t) = l.source ++ t := by
  obtain ⟨c, r, hcons, hdigit | rfl⟩ := l.head_source
  · rw [hcons, List.cons_append]
    exact skip_cons_of_isIdentifierChar (by simp [Text.isIdentifierChar, Char.isAlphanum, hdigit]) _
  · rw [hcons, List.cons_append]
    exact skip_cons_of_token rfl (by decide) _

theorem unaryOperator?_source (t : Text) : Token.unaryOperator? (l.source ++ t) = none := by
  obtain ⟨c, r, hcons, hdigit | rfl⟩ := l.head_source
  · rw [hcons]
    exact unaryOperator?_of_isDigit hdigit (r ++ t)
  · rw [hcons]
    have hword : wordStart ('.' :: (r ++ t)) = [] := rfl
    exact unaryOperator?_eq_none (by decide) hword (by decide)

/-- A decimal is an operand by itself. -/
theorem reads_primary {fuel : Nat} {self : Reader Phrase} (ht : EndsWord t)
    (hpoint : t.head? ≠ some '.') :
    Reads (Grammar.primary fuel self) (l.source ++ t)
      (fun p => p.Means 12 (.number nowhere l.value)) (skip t) :=
  (reads_single (l.number?_source ht hpoint) fun start => Phrase.number_means start _).oneOf []
    (by simp)

end Literal

/-! ## Strings -/

/-- A character as it is written in a string. -/
def escapeChar (c : Char) : Text :=
  if c = '"' then ['\\', '"']
  else if c = '\\' then ['\\', '\\']
  else if c = '\n' then ['\\', 'n']
  else [c]

/-- A string as it is written. -/
def quote (value : Text) : Text := '"' :: (value.flatMap escapeChar ++ ['"'])

/-- An escaped character neither closes a string nor leaves it open. -/
private theorem quoted?_escapeChar (c : Char) (r : Text) :
    Token.quoted? '"' (escapeChar c ++ r) = (Token.quoted? '"' r).map (escapeChar c ++ ·) := by
  unfold escapeChar
  split
  · simp [Token.quoted?]
  split
  · simp [Token.quoted?]
  split
  · simp [Token.quoted?]
  -- any other character stands for itself
  · rename_i hquote hescape hnewline
    rw [List.singleton_append, Token.quoted?, if_neg hquote, if_neg hnewline]
    · rfl
    · rintro rfl
      exact absurd rfl hescape
    · rintro d s rfl
      exact absurd rfl hescape

private theorem unescapeFrom_escapeChar (c : Char) (r : Text) :
    Token.unescapeFrom 0 (escapeChar c ++ r) = c :: Token.unescapeFrom 0 r := by
  unfold escapeChar
  split
  · simp [Token.unescapeFrom, *]
  split
  · simp [Token.unescapeFrom, *]
  split <;> simp [Token.unescapeFrom, *]

private theorem quoted?_escaped (value t : Text) :
    Token.quoted? '"' (value.flatMap escapeChar ++ '"' :: t) = some (value.flatMap escapeChar) := by
  induction value with
  | nil =>
    unfold Token.quoted?
    rfl
  | cons c value ih =>
    rw [List.flatMap_cons, List.append_assoc, quoted?_escapeChar, ih]
    rfl

private theorem unescape_escaped (value : Text) :
    Token.unescape (value.flatMap escapeChar) = value := by
  unfold Token.unescape
  induction value with
  | nil => rfl
  | cons c value ih => rw [List.flatMap_cons, unescapeFrom_escapeChar, ih]

/-- A string is a token, whatever follows it. -/
theorem string?_quote (value t : Text) :
    Token.string? (quote value ++ t) = some (value, (quote value).length) := by
  rw [quote, List.cons_append, List.append_assoc, List.singleton_append]
  simp [Token.string?, quoted?_escaped, unescape_escaped]

/-- Characters that a string shows as they are. -/
def IsPlain (t : Text) : Prop := ∀ c ∈ t, c ≠ '"' ∧ c ≠ '\\' ∧ c ≠ '\n'

theorem escapeChar_eq_singleton {c : Char} (h : c ≠ '"' ∧ c ≠ '\\' ∧ c ≠ '\n') :
    escapeChar c = [c] := by
  rw [escapeChar, if_neg h.1, if_neg h.2.1, if_neg h.2.2]

/-- Nothing is escaped in a plain string. -/
theorem quote_of_isPlain {value : Text} (h : IsPlain value) : quote value = '"' :: (value ++ ['"']) := by
  have hescaped : value.flatMap escapeChar = value := by
    induction value with
    | nil => rfl
    | cons c value ih =>
      rw [List.flatMap_cons, escapeChar_eq_singleton (h c (by simp)),
        ih fun d hd => h d (List.mem_cons_of_mem _ hd)]
      rfl
  rw [quote, hescaped]

theorem newline_not_mem_quote (value : Text) : '\n' ∉ quote value := by
  have hescaped : '\n' ∉ value.flatMap escapeChar := by
    intro hmem
    obtain ⟨c, -, hc⟩ := List.mem_flatMap.1 hmem
    unfold escapeChar at hc
    split at hc
    · simp at hc
    split at hc
    · simp at hc
    split at hc
    · simp at hc
    · rename_i hnewline
      exact hnewline (List.mem_singleton.1 hc).symm
  simp [quote, hescaped]

section

variable {fuel : Nat} {self : Reader Phrase} {t : Text}

theorem unaryOperator?_quote (value t : Text) : Token.unaryOperator? (quote value ++ t) = none := by
  have hword : wordStart (quote value ++ t) = [] := rfl
  exact unaryOperator?_eq_none (c := '"') (by decide) hword (by decide)

theorem reads_primary_quote (value t : Text) :
    Reads (Grammar.primary fuel self) (quote value ++ t)
      (fun p => p.Means 12 (.string nowhere value)) (skip t) := by
  have hstring := string?_quote value t
  refine (reads_single hstring fun start => Phrase.string_means start _).oneOf [_] fun r hr => ?_
  rw [List.mem_singleton] at hr
  subst hr
  exact fails_single (number?_eq_none rfl (by decide) _)

/-- A string is an operand. -/
theorem EndsOperand.reads_quote (h : EndsOperand t) (value : Text) :
    Reads (Grammar.unary fuel self) (quote value ++ t)
      (fun p => p.Means 12 (.string nowhere value)) (skip t) :=
  h.reads_unary (unaryOperator?_quote value t) (reads_primary_quote value t)

end

end Pseudocode.Script
