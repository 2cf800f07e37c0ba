import Pseudocode.Proofs.NumberTexts

/-!
# The decimal that a text begins with

The number that a text begins with is the one that the longest decimal among its prefixes converts to.
An exponent belongs to the decimal only if it has digits, and a point only if there are digits on one of
its sides.

* `IsDecimal`, `IsLongestDecimal`   decimals with a sign, and the longest one that a text begins with
* `length_source_le`                no decimal in front of a text is longer than the one that is found
* `isLongestDecimal_decimalStart`   which is one, if there is any
* `leadingDecimal_reads_longest`    the number that is read
-/

namespace Pseudocode.Numeral

open Script

variable {t v w : Text}

/-! ## Decimals with a sign -/

/-- Digits with a point anywhere before, between or behind them, then perhaps an exponent, and perhaps
    a sign in front of it all. -/
def IsDecimal (t : Text) : Prop := ∃ sign, ∃ l : Literal, t = signText sign ++ l.source

/-- The longest decimal that a text begins with. -/
structure IsLongestDecimal (p t : Text) : Prop where
  isDecimal : IsDecimal p
  isPrefix : p <+: t
  length_le : ∀ q, IsDecimal q → q <+: t → q.length ≤ p.length

theorem IsLongestDecimal.unique {p q : Text} (hp : IsLongestDecimal p t) (hq : IsLongestDecimal q t) :
    p = q :=
  (List.prefix_of_prefix_length_le hp.isPrefix hq.isPrefix
    (hq.length_le p hp.isDecimal hp.isPrefix)).eq_of_length_le (hp.length_le q hq.isDecimal hq.isPrefix)

theorem IsDecimal.ne_nil (h : IsDecimal t) : t ≠ [] := by
  obtain ⟨sign, l, rfl⟩ := h
  rw [ne_eq, List.append_eq_nil_iff, not_and]
  exact fun _ => l.isTrimmed_source.ne_nil

/-- A decimal converts to a number. -/
theorem isNaN_ofText_of_isDecimal (h : IsDecimal t) : (ofText t).isNaN = false := by
  obtain ⟨sign, l, rfl⟩ := h
  refine isNaN_eq_false_of_isNumberText ?_
  rw [Text.IsTrimmed.trim]
  · exact .decimal sign l
  · rcases sign with _ | (_ | _)
    · exact l.isTrimmed_source
    · exact (Text.IsTrimmed.append (by decide : Text.IsTrimmed ['+']) [] l.isTrimmed_source)
    · exact (Text.IsTrimmed.append (by decide : Text.IsTrimmed ['-']) [] l.isTrimmed_source)

/-! ## Digits and exponents -/

/-- Digits in front of a text, and something behind them that is no digit: they are all the digits that
    the text begins with, or nothing is behind them. -/
theorem digits_append_prefix {digits : Text} (hdigits : ∀ c ∈ digits, c.isDigit = true)
    (hw : ∀ c ∈ w.head?, c.isDigit = false) (h : digits ++ w <+: t) :
    digits = (splitDigits t).1 ∧ w <+: (splitDigits t).2 ∨ w = [] ∧ digits <+: (splitDigits t).1 := by
  obtain ⟨rest, rfl⟩ := h
  rw [List.append_assoc]
  cases w with
  | nil =>
    refine .inr ⟨rfl, ?_⟩
    rw [splitDigits, List.nil_append, List.takeWhile_append_of_pos hdigits]
    exact List.prefix_append _ _
  | cons c w =>
    rw [splitDigits_append hdigits _ (by simpa using hw)]
    exact .inl ⟨rfl, List.prefix_append _ _⟩

/-- What is taken for an exponent is one. -/
theorem exists_source_of_exponentStart (t : Text) :
    exponentStart t = [] ∨ ∃ e : Exponent, exponentStart t = e.source := by
  unfold exponentStart
  split
  · next mark r =>
    split
    · next hmark =>
      extract_lets sign digits
      split
      · exact .inl rfl
      · next hne =>
        have hdigit : ∀ c ∈ digits, c.isDigit = true := isDigit_splitDigits _
        have hne : digits ≠ [] := by simpa using hne
        -- sign and letter are kept as they were written
        obtain ⟨s, hs⟩ : ∃ s, sign = signText s := by
          simp only [sign]
          split
          · exact ⟨some true, rfl⟩
          · exact ⟨some false, rfl⟩
          · exact ⟨none, rfl⟩
        have hletter : (if decide (mark = 'E') then 'E' else 'e') = mark := by
          rw [Bool.or_eq_true, decide_eq_true_eq, decide_eq_true_eq] at hmark
          rcases hmark with rfl | rfl <;> rfl
        refine .inr ⟨⟨mark = 'E', s, digits, hdigit, hne⟩, ?_⟩
        show mark :: sign ++ digits = (if decide (mark = 'E') then 'E' else 'e') :: (signText s ++ digits)
        rw [hletter, hs, List.cons_append]
    · exact .inl rfl
  · exact .inl rfl

/-- No exponent in front of a text is longer than the one that is found. -/
theorem exponentText_length_le (l : Literal) (h : l.exponentText <+: t) :
    l.exponentText.length ≤ (exponentStart t).length := by
  unfold Literal.exponentText at h ⊢
  cases hexponent : l.exponent with
  | none => exact Nat.zero_le _
  | some e =>
    rw [hexponent] at h
    obtain ⟨r, rfl⟩ := h
    rw [e.exponentStart_append, List.length_append]
    exact Nat.le_add_right _ _

/-- Behind the digits of a decimal stands no digit that belongs to it. -/
theorem head_exponentText (l : Literal) : ∀ c ∈ l.exponentText.head?, c.isDigit = false ∧ c ≠ '.' := by
  unfold Literal.exponentText
  cases l.exponent with
  | none => simp
  | some e =>
    rintro _ ⟨⟩
    unfold Exponent.mark
    split <;> decide

theorem head_pointText (l : Literal) :
    ∀ c ∈ (l.pointText ++ l.exponentText).head?, c.isDigit = false := by
  unfold Literal.pointText
  cases l.fraction with
  | none => exact fun c hc => (head_exponentText l c hc).1
  | some digits => simp

/-! ## Decimals without a sign -/

theorem numeralParts_of_point {r : Text} (h : (splitDigits t).2 = '.' :: r) :
    numeralParts t = ((splitDigits t).1, some (splitDigits r).1, exponentStart (splitDigits r).2) := by
  simp only [numeralParts, h]

theorem numeralParts_of_head_ne_point (h : (splitDigits t).2.head? ≠ some '.') :
    numeralParts t = ((splitDigits t).1, none, exponentStart (splitDigits t).2) := by
  unfold numeralParts
  split
  · next r hr => exact absurd (by rw [hr]; rfl) h
  · rfl

/-- What is found in front of a text is a decimal, unless it lacks digits. -/
theorem exists_source_of_numeralParts (h : lacksDigits (numeralParts t) = false) :
    ∃ l : Literal, numeralText (numeralParts t) = l.source := by
  obtain ⟨hdigit, e, he⟩ : (∀ c ∈ (numeralParts t).1 ++ (numeralParts t).2.1.getD [], c.isDigit = true) ∧
      ∃ e : Option Exponent, (numeralParts t).2.2 = (e.map Exponent.source).getD [] := by
    have hexponent (r : Text) : ∃ e : Option Exponent, exponentStart r = (e.map Exponent.source).getD [] := by
      rcases exists_source_of_exponentStart r with hnil | ⟨e, he⟩
      · exact ⟨none, hnil⟩
      · exact ⟨some e, he⟩
    unfold numeralParts
    split
    · exact ⟨List.forall_mem_append.2 ⟨isDigit_splitDigits t, isDigit_splitDigits _⟩, hexponent _⟩
    · exact ⟨by simpa using isDigit_splitDigits t, hexponent _⟩
  -- from here on only the three parts matter
  generalize numeralParts t = parts at h hdigit he ⊢
  obtain ⟨whole, fraction, exponent⟩ := parts
  have hne : whole ++ fraction.getD [] ≠ [] := by
    rw [ne_eq, List.append_eq_nil_iff]
    simpa [lacksDigits] using h
  refine ⟨⟨whole, fraction, e, hdigit, hne⟩, ?_⟩
  dsimp only at he
  subst he
  cases fraction <;> cases e <;> rfl

/-- Digits that a text begins with belong to what is found. -/
theorem length_le_of_prefix_splitDigits (h : v <+: (splitDigits t).1) (hne : v ≠ []) :
    lacksDigits (numeralParts t) = false ∧ v.length ≤ (numeralText (numeralParts t)).length := by
  have hwhole : (splitDigits t).1 ≠ [] := fun hnil => hne (List.prefix_nil.1 (hnil ▸ h))
  have hle := h.length_le
  unfold numeralParts
  split
  · simp only [lacksDigits, numeralText, List.isEmpty_eq_false_iff.2 hwhole, Bool.false_and,
      List.length_append, true_and]
    omega
  · simp only [lacksDigits, numeralText, List.isEmpty_eq_false_iff.2 hwhole, Bool.false_and,
      List.length_append, true_and]
    omega

/-- No decimal without a sign in front of a text is longer than the one that is found. -/
theorem length_source_le {l : Literal} (h : l.source <+: t) :
    lacksDigits (numeralParts t) = false ∧ l.source.length ≤ (numeralText (numeralParts t)).length := by
  have hne := l.ne_nil
  rw [Literal.source] at h ⊢
  rcases digits_append_prefix l.whole_isDigit (head_pointText l) h with ⟨hwhole, hrest⟩ | ⟨hnil, hwhole⟩
  · -- all digits are the whole part, and a point or an exponent may go on behind them
    cases hfraction : l.fraction with
    | some digits =>
      rw [hfraction, Option.getD_some] at hne
      have hpoint : l.pointText = '.' :: digits := by simp [Literal.pointText, hfraction]
      rw [hpoint] at hrest ⊢
      obtain ⟨r, hr, hfound⟩ : ∃ r, (splitDigits t).2 = '.' :: r ∧ digits ++ l.exponentText <+: r := by
        obtain ⟨after, hafter⟩ := hrest
        exact ⟨digits ++ l.exponentText ++ after, hafter.symm, List.prefix_append _ _⟩
      obtain ⟨hdigits, hlength⟩ : digits <+: (splitDigits r).1 ∧ digits.length + l.exponentText.length ≤
          (splitDigits r).1.length + (exponentStart (splitDigits r).2).length := by
        rcases digits_append_prefix (fun c hc => l.isDigit c (by simp [hfraction, hc]))
          (fun c hc => (head_exponentText l c hc).1) hfound with ⟨heq, hexponent⟩ | ⟨hnil, hle⟩
        · rw [← heq]
          exact ⟨List.prefix_rfl, Nat.add_le_add_left (exponentText_length_le l hexponent) _⟩
        · rw [hnil]
          exact ⟨hle, Nat.le_add_right_of_le hle.length_le⟩
      rw [numeralParts_of_point hr, ← hwhole]
      constructor
      · have hboth : ¬ (l.whole = [] ∧ (splitDigits r).1 = []) := fun hempty =>
          hne (List.append_eq_nil_iff.2 ⟨hempty.1, List.prefix_nil.1 (hempty.2 ▸ hdigits)⟩)
        simpa [lacksDigits] using hboth
      · simp only [numeralText, List.length_append, List.length_cons]
        omega
    | none =>
      rw [hfraction, Option.getD_none, List.append_nil] at hne
      have hpoint : l.pointText = [] := by simp [Literal.pointText, hfraction]
      rw [hpoint, List.nil_append] at hrest ⊢
      by_cases hnil : l.exponentText = []
      · rw [hnil, List.append_nil]
        exact length_le_of_prefix_splitDigits (by rw [← hwhole]) hne
      · -- the letter of the exponent stands where a point would stand
        have hhead : (splitDigits t).2.head? ≠ some '.' := by
          obtain ⟨c, w, hcons⟩ := List.exists_cons_of_ne_nil hnil
          obtain ⟨after, hafter⟩ := hrest
          have hc := (head_exponentText l c (by rw [hcons]; rfl)).2
          rw [← hafter, hcons]
          simpa using hc
        rw [numeralParts_of_head_ne_point hhead, ← hwhole]
        refine ⟨by simpa [lacksDigits] using hne, ?_⟩
        have hexponent := exponentText_length_le l hrest
        simp only [numeralText, List.length_append]
        omega
  · -- what is found goes on where the digits of the decimal end
    rw [hnil, List.append_nil]
    refine length_le_of_prefix_splitDigits hwhole fun hempty => hne ?_
    have hfraction : l.fraction = none := by
      rw [List.append_eq_nil_iff] at hnil
      unfold Literal.pointText at hnil
      split at hnil
      · assumption
      · simp at hnil
    rw [hempty, hfraction]
    rfl

/-! ## Decimals that a text begins with -/

/-- What is found behind the sign of a text. -/
theorem decimalStart_signText {sign : Option Bool} (hv : sign = none → splitSign v = (false, v)) :
    decimalStart (signText sign ++ v) =
      if lacksDigits (numeralParts v) then [] else signText sign ++ numeralText (numeralParts v) := by
  unfold decimalStart
  extract_lets s
  -- a sign is taken off if there is one, else `v` begins with none
  have hs : s = signText sign := by
    rcases sign with _ | (_ | _)
    · simp only [s, signText, List.nil_append]
      split
      · simp [splitSign] at hv
      · simp [splitSign] at hv
      · rfl
    · rfl
    · rfl
  have hdrop : (signText sign ++ v).drop s.length = v := by rw [hs, List.drop_left]
  rw [hdrop, hs]
  unfold numeralParts
  generalize splitDigits v = parts
  obtain ⟨whole, rest⟩ := parts
  dsimp only
  split
  · simp [lacksDigits, numeralText]
  · simp [lacksDigits, numeralText]

/-- The sign of a decimal is the sign of the text that it begins. -/
theorem IsDecimal.exists_source_prefix {isNegative : Bool} (hw : IsDecimal w) (hbegins : w <+: t)
    (hsplit : splitSign t = (isNegative, v)) :
    ∃ sign, ∃ l : Literal, w = signText sign ++ l.source ∧ t = signText sign ++ v ∧ l.source <+: v := by
  obtain ⟨sign, l, rfl⟩ := hw
  obtain ⟨rest, rfl⟩ := hbegins
  have hplain : splitSign (l.source ++ rest) = (false, l.source ++ rest) := by
    obtain ⟨c, r, hcons, hdigit | rfl⟩ := l.head_source
    · rw [hcons]
      exact splitSign_of_isDigit hdigit
    · rw [hcons]
      rfl
  rw [List.append_assoc, splitSign_signText sign hplain, Prod.mk.injEq] at hsplit
  obtain ⟨-, rfl⟩ := hsplit
  exact ⟨sign, l, rfl, List.append_assoc _ _ _, List.prefix_append _ _⟩

/-- What is found in front of a text is the longest decimal there, if there is any. -/
theorem isLongestDecimal_decimalStart (hw : IsDecimal w) (hbegins : w <+: t) :
    IsLongestDecimal (decimalStart t) t := by
  obtain ⟨sign, v, rfl, hsplit⟩ := exists_signText t
  -- every decimal in front has the sign of the text
  have hbehind {q : Text} (hq : IsDecimal q) (hq' : q <+: signText sign ++ v) :
      ∃ l : Literal, q = signText sign ++ l.source ∧ l.source <+: v := by
    obtain ⟨s, l, rfl, hsame, hl⟩ := hq.exists_source_prefix hq' hsplit
    exact ⟨l, by rw [List.append_cancel_right hsame], hl⟩
  have hstart : decimalStart (signText sign ++ v) = signText sign ++ numeralText (numeralParts v) := by
    obtain ⟨l, -, hl⟩ := hbehind hw hbegins
    rw [decimalStart_signText (by rintro rfl; exact hsplit), (length_source_le hl).1]
    rfl
  rw [hstart]
  refine ⟨?_, ?_, fun q hq hq' => ?_⟩
  · obtain ⟨l, -, hl⟩ := hbehind hw hbegins
    obtain ⟨found, hfound⟩ := exists_source_of_numeralParts (length_source_le hl).1
    exact ⟨sign, found, by rw [hfound]⟩
  · obtain ⟨rest, hrest, -⟩ := numeralText_split v
    exact (List.prefix_append_right_inj _).2 ⟨rest, hrest.symm⟩
  · obtain ⟨l, rfl, hl⟩ := hbehind hq hq'
    rw [List.length_append, List.length_append]
    exact Nat.add_le_add_left (length_source_le hl).2 _

/-- Nothing is found in front of a text that begins with no decimal. -/
theorem decimalStart_eq_nil (h : ∀ p, IsDecimal p → ¬ p <+: t) : decimalStart t = [] := by
  obtain ⟨sign, v, rfl, hsplit⟩ := exists_signText t
  rw [decimalStart_signText (by rintro rfl; exact hsplit)]
  refine if_pos (Bool.not_eq_false _ ▸ fun hlacks => ?_)
  obtain ⟨l, hl⟩ := exists_source_of_numeralParts hlacks
  obtain ⟨rest, hrest, -⟩ := numeralText_split v
  exact h _ ⟨sign, l, rfl⟩ ((List.prefix_append_right_inj _).2 ⟨rest, by rw [← hl, ← hrest]⟩)

/-- A text that begins with no name of infinity is read as what is found in front of it. -/
theorem leadingDecimal_eq (h : ∀ sign, ¬ signText sign ++ text "Infinity" <+: Text.trimStart t) :
    leadingDecimal t =
      if decimalStart (Text.trimStart t) = [] then nan else ofText (decimalStart (Text.trimStart t)) := by
  have hname {w : Text} (hw : ¬ w <+: Text.trimStart t) : Text.startsWith w (Text.trimStart t) = false := by
    rw [← Bool.not_eq_true]
    intro hstarts
    obtain ⟨r, hr⟩ := Option.isSome_iff_exists.1 hstarts
    exact hw ⟨r, (Text.dropStart?_eq_some hr).symm⟩
  have hplain : Text.startsWith (text "Infinity") (Text.trimStart t) = false := hname (h none)
  have hplus : Text.startsWith (text "+Infinity") (Text.trimStart t) = false := hname (h (some false))
  have hminus : Text.startsWith (text "-Infinity") (Text.trimStart t) = false := hname (h (some true))
  simp [leadingDecimal, hplain, hplus, hminus]

/-- The number that a text begins with, unless it begins with the name of infinity, is what the longest
    decimal converts to that stands in front of it behind white space. There is none exactly if no decimal
    stands there. -/
theorem leadingDecimal_reads_longest (t : Text)
    (h : ∀ sign, ¬ signText sign ++ text "Infinity" <+: Text.trimStart t) :
    (∀ p, IsLongestDecimal p (Text.trimStart t) → leadingDecimal t = ofText p) ∧
      ((leadingDecimal t).isNaN = true ↔ ∀ p, IsDecimal p → ¬ p <+: Text.trimStart t) := by
  have hlongest {p : Text} (hp : IsLongestDecimal p (Text.trimStart t)) : leadingDecimal t = ofText p := by
    have heq := (isLongestDecimal_decimalStart hp.isDecimal hp.isPrefix).unique hp
    rw [leadingDecimal_eq h, heq, if_neg hp.isDecimal.ne_nil]
  refine ⟨fun p => hlongest, fun hnan p hp hbegins => ?_, fun hnone => ?_⟩
  · have hfound := isLongestDecimal_decimalStart hp hbegins
    rw [hlongest hfound, isNaN_ofText_of_isDecimal hfound.isDecimal] at hnan
    cases hnan
  · rw [leadingDecimal_eq h, if_pos (decimalStart_eq_nil hnone)]
    decide +kernel

/-- The exponent in front of a letter outside of ASCII lacks its digits. -/
theorem leadingDecimal_reads_longest_cut :
    (∀ sign, ¬ signText sign ++ text "Infinity" <+: Text.trimStart (text " \t-.50e+é")) ∧
      IsLongestDecimal (text "-.50") (Text.trimStart (text " \t-.50e+é")) ∧
      leadingDecimal (text " \t-.50e+é") = ofText (text "-.50") := by
  have hname : ∀ sign, ¬ signText sign ++ text "Infinity" <+: Text.trimStart (text " \t-.50e+é") := by
    decide +kernel
  have hdecimal : IsDecimal (text "-.50") :=
    ⟨some true, ⟨[], some (text "50"), none, by simp [text], by simp [text]⟩, rfl⟩
  have hlongest : IsLongestDecimal (text "-.50") (Text.trimStart (text " \t-.50e+é")) := by
    have hstart : decimalStart (Text.trimStart (text " \t-.50e+é")) = text "-.50" := by decide +kernel
    have hbegins : text "-.50" <+: Text.trimStart (text " \t-.50e+é") := by decide +kernel
    exact hstart ▸ isLongestDecimal_decimalStart hdecimal hbegins
  exact ⟨hname, hlongest, (leadingDecimal_reads_longest _ hname).1 _ hlongest⟩

end Pseudocode.Numeral
