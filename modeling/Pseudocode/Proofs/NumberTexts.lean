import Pseudocode.Proofs.Enclosure
import Pseudocode.Proofs.InputCalls
import Pseudocode.Proofs.LiteralSteps

/-!
# The texts that convert to numbers

A text converts to a number if, surrounding white space left aside, nothing is left of it, or it is a
decimal or the name of infinity with a sign in front of it, or it is the mark of a hexadecimal number and
an integer of 64 bits behind it, perhaps with a sign of its own. An answer to an input request is a
number if its text is one of these and the number is finite.

* `Numeral.exists_source_of_decimal?`  whatever is read as a decimal is written as one
* `Numeral.hexadecimal?_eq_some_iff`   what may stand behind the mark of a hexadecimal number
* `Numeral.IsNumberText`               the texts that convert to numbers
* `Numeral.reads_number_texts`         only these do, and which of them an answer gives as a number
-/

namespace Pseudocode

open Script

/-! ## Bit patterns of numbers -/

namespace Double

/-- The bit patterns below that of infinity are those of the finite numbers. -/
theorem exists_ofBits_eq_finite {bits : Nat} (h : bits < infinityBits) :
    ∃ m q, ofBits bits = .finite false m q := by
  rcases Nat.eq_zero_or_pos bits with rfl | hpos
  · exact ⟨0, -1074, rfl⟩
  · obtain ⟨m, q, hfinite, -⟩ := ofBits_of_lt hpos h
    exact ⟨m, q, hfinite⟩

/-- The bit patterns up to that of infinity are those of numbers; the sign bit makes their opposites. -/
theorem decode_ofBits_add_signBit {bits : Nat} (h : bits ≤ infinityBits) (negative : Bool) :
    decode (Float.ofBits (UInt64.ofNat (bits + signBit negative))) =
      if negative then (ofBits bits).negate else ofBits bits := by
  have hsmall : bits < 2 ^ 63 := Nat.lt_of_le_of_lt h (by decide)
  -- up to infinity there is no NaN, so the sign bit only negates
  have hnumber : ofBits bits ≠ .nan := by
    rcases Nat.lt_or_eq_of_le h with hlt | rfl
    · obtain ⟨m, q, hfinite⟩ := exists_ofBits_eq_finite hlt
      simp [hfinite]
    · decide
  cases negative with
  | false => exact decode_ofBits (Nat.lt_trans hsmall (by decide)) hnumber
  | true =>
    rw [decode_ofBits (by simp only [signBit, if_true]; omega)]
    · exact ofBits_add_signBit hsmall
    · rw [ofBits_add_signBit hsmall]
      cases hdouble : ofBits bits with
      | nan => exact absurd hdouble hnumber
      | _ => exact Double.noConfusion

theorem isNaN_ofBits {bits : Nat} (h : bits ≤ infinityBits) (negative : Bool) :
    (Float.ofBits (UInt64.ofNat (bits + signBit negative))).isNaN = false := by
  rw [← Bool.not_eq_true, isNaN_iff, decode_ofBits_add_signBit h]
  rcases Nat.lt_or_eq_of_le h with hlt | rfl
  · obtain ⟨m, q, hfinite⟩ := exists_ofBits_eq_finite hlt
    cases negative <;> simp [hfinite, negate]
  · cases negative <;> decide

theorem isFinite_ofBits {bits : Nat} (h : bits ≤ infinityBits) (negative : Bool) :
    isFinite (Float.ofBits (UInt64.ofNat (bits + signBit negative))) = decide (bits < infinityBits) := by
  rw [isFinite, decode_ofBits_add_signBit h]
  rcases Nat.lt_or_eq_of_le h with hlt | rfl
  · obtain ⟨m, q, hfinite⟩ := exists_ofBits_eq_finite hlt
    cases negative <;> simp [hfinite, hlt, negate]
  · cases negative <;> decide

theorem isNaN_eq_false_of_isFinite {x : Float} (h : isFinite x = true) : x.isNaN = false := by
  rw [← Bool.not_eq_true, isNaN_iff]
  intro hnan
  simp [isFinite, hnan] at h

/-- The whole numbers of 64 bits are finite doubles. -/
theorem isFinite_ofInt {n : Int} (h : n.natAbs ≤ 2 ^ 63) : isFinite (ofInt n) = true := by
  have hlt : magnitudeBits n.natAbs 1 < infinityBits := by
    rw [magnitudeBits_lt_infinityBits_iff Nat.one_pos, Nat.cast_one, div_one, middle_eq]
    calc (n.natAbs : ℚ) ≤ 2 ^ 63 := by exact_mod_cast h
      _ < (2 ^ 53 - 1 / 2) * 2 ^ (11 : Int) := by norm_num
      _ ≤ (2 ^ 53 - 1 / 2) * 2 ^ (971 : Int) :=
        mul_le_mul_of_nonneg_left (two_zpow_mono (by norm_num)) (by norm_num)
  rw [ofInt, encode, isFinite_ofBits hlt.le]
  exact decide_eq_true hlt

end Double

namespace Numeral

/-! ## Signs -/

/-- A sign, if there is one: whether it is a minus. -/
def signText : Option Bool → Text
  | none => []
  | some isMinus => if isMinus then ['-'] else ['+']

/-- Whether the sign is there and is a minus. -/
def isMinus (sign : Option Bool) : Bool := sign = some true

/-- What is split off a text is its sign. -/
theorem exists_signText (t : Text) :
    ∃ sign r, t = signText sign ++ r ∧ splitSign t = (isMinus sign, r) := by
  unfold splitSign
  split
  · exact ⟨some true, _, rfl, rfl⟩
  · exact ⟨some false, _, rfl, rfl⟩
  · exact ⟨none, _, rfl, rfl⟩

/-- A sign is split off where no other one follows it. -/
theorem splitSign_signText (sign : Option Bool) {t : Text} (ht : splitSign t = (false, t)) :
    splitSign (signText sign ++ t) = (isMinus sign, t) := by
  rcases sign with _ | (_ | _)
  · exact ht
  · rfl
  · rfl

/-! ## Decimals -/

theorem isDigit_splitDigits (t : Text) : ∀ c ∈ (splitDigits t).1, c.isDigit = true := fun _ hc =>
  List.mem_takeWhile_imp hc

/-- Whatever is read as an exponent is written as one, or nothing is written. -/
theorem exists_source_of_exponent? {t : Text} {n : Int} (h : exponent? t = some n) :
    ∃ e : Option Exponent, t = (e.map Exponent.source).getD [] ∧ n = (e.map Exponent.value).getD 0 := by
  cases t with
  | nil => exact ⟨none, rfl, by simpa [exponent?] using h.symm⟩
  | cons mark r =>
    obtain ⟨sign, digits, rfl, hsign⟩ := exists_signText r
    have hsplit := splitDigits_append_rest digits
    have hdigit := isDigit_splitDigits digits
    simp only [exponent?, hsign] at h
    split at h
    · next hmark =>
      split at h
      · cases h
      · next hwhole =>
        -- the digits are not missing, and nothing follows them
        obtain ⟨hne, hrest⟩ : (splitDigits digits).1 ≠ [] ∧ (splitDigits digits).2 = [] := by
          simpa using hwhole
        rw [hrest, List.append_nil] at hsplit
        rw [hsplit] at hne hdigit h
        refine ⟨some ⟨mark = 'E', sign, digits, hdigit, hne⟩, ?_, ?_⟩
        · have hletter : (if decide (mark = 'E') then 'E' else 'e') = mark := by
            rw [Bool.or_eq_true, decide_eq_true_eq, decide_eq_true_eq] at hmark
            rcases hmark with rfl | rfl <;> rfl
          show mark :: (signText sign ++ digits) =
            (if decide (mark = 'E') then 'E' else 'e') :: (signText sign ++ digits)
          rw [hletter]
        · show n = if sign = some true then -(digitsValue digits : Int) else digitsValue digits
          simpa [isMinus] using h.symm
    · cases h

/-- Digits and what is read as an exponent make a decimal. -/
theorem exists_source_of_digits {whole rest : Text} (fraction : Option Text) {n : Int}
    (hdigit : ∀ c ∈ whole ++ fraction.getD [], c.isDigit = true) (hne : whole ++ fraction.getD [] ≠ [])
    (h : exponent? rest = some n) :
    ∃ l : Literal, l.source = whole ++ ((fraction.map ('.' :: ·)).getD [] ++ rest) ∧
      l.scientific = ⟨digitsValue (whole ++ fraction.getD []), n - (fraction.getD []).length⟩ := by
  obtain ⟨e, rfl, rfl⟩ := exists_source_of_exponent? h
  refine ⟨⟨whole, fraction, e, hdigit, hne⟩, ?_, rfl⟩
  cases fraction <;> cases e <;> rfl

/-- Whatever is read as a decimal is written as one. -/
theorem exists_source_of_decimal? {t : Text} {d : Decimal.Scientific} (h : decimal? t = some d) :
    ∃ l : Literal, t = l.source ∧ d = l.scientific := by
  have hsplit := splitDigits_append_rest t
  have hdigit := isDigit_splitDigits t
  unfold decimal? at h
  generalize splitDigits t = parts at hsplit hdigit h
  obtain ⟨whole, rest⟩ := parts
  dsimp only at hsplit hdigit h
  -- with a point and without one
  split at h
  · next r =>
    have hsplit' := splitDigits_append_rest r
    have hdigit' := isDigit_splitDigits r
    generalize splitDigits r = parts at hsplit' hdigit' h
    obtain ⟨fraction, rest⟩ := parts
    dsimp only at hsplit' hdigit' h
    split at h
    · cases h
    · next hne =>
      obtain ⟨n, hn, rfl⟩ := Option.map_eq_some_iff.1 h
      obtain ⟨l, hsource, hvalue⟩ := exists_source_of_digits (some fraction)
        (List.forall_mem_append.2 ⟨hdigit, hdigit'⟩) (by simpa [← List.append_eq_nil_iff] using hne) hn
      refine ⟨l, ?_, hvalue.symm⟩
      rw [hsource, ← hsplit, ← hsplit']
      rfl
  · split at h
    · cases h
    · next hne =>
      obtain ⟨n, hn, rfl⟩ := Option.map_eq_some_iff.1 h
      obtain ⟨l, hsource, hvalue⟩ := exists_source_of_digits none
        (by simpa using hdigit) (by simpa using hne) hn
      exact ⟨l, by rw [hsource, ← hsplit]; rfl, hvalue.symm⟩

theorem bits?_source (sign : Option Bool) (l : Literal) :
    bits? (signText sign ++ l.source) = some (l.bits + Double.signBit (isMinus sign)) := by
  rw [bits?, splitSign_signText sign l.splitSign_source]
  simp only [l.decimal?_source]
  rfl

/-- The characters of a decimal are not those of the names of the special values. -/
theorem toLower_of_isDecimalChar {c : Char} (h : isDecimalChar c = true) :
    c.toLower ≠ 'i' ∧ c.toLower ≠ 'n' :=
  forall_ascii (p := fun c => isDecimalChar c = true → c.toLower ≠ 'i' ∧ c.toLower ≠ 'n')
    (by decide +kernel) (toNat_lt_of_isDecimalChar h) h

theorem sameWord_eq_false_of_isDecimalChar {t w : Text} (h : ∀ c ∈ t, isDecimalChar c = true)
    (hw : w.head?.map Char.toLower = some 'i' ∨ w.head?.map Char.toLower = some 'n') :
    Text.sameWord t w = false := by
  refine Bool.eq_false_iff.2 fun hsame => ?_
  have hmap : t.map Char.toLower = w.map Char.toLower := by simpa [Text.sameWord, Text.toLower] using hsame
  rw [← List.head?_map, ← hmap, List.head?_map] at hw
  cases t with
  | nil => simp at hw
  | cons c r =>
    obtain ⟨hi, hn⟩ := toLower_of_isDecimalChar (h c (by simp))
    simp [hi, hn] at hw

/-- The characters of a decimal are read as a number only if they are a decimal with a sign. -/
theorem exists_source_of_bits? {t : Text} {b : Nat} (ht : ∀ c ∈ t, isDecimalChar c = true)
    (h : bits? t = some b) : ∃ sign, ∃ l : Literal, t = signText sign ++ l.source := by
  obtain ⟨sign, r, rfl, hsign⟩ := exists_signText t
  have hname {w : Text} := sameWord_eq_false_of_isDecimalChar (t := r) (w := w)
    fun c hc => ht c (List.mem_append_right _ hc)
  simp only [bits?, hsign] at h
  split at h
  · next d hd =>
    obtain ⟨l, rfl, -⟩ := exists_source_of_decimal? hd
    exact ⟨sign, l, rfl⟩
  · simp [hname (w := text "nan") (by decide), hname (w := text "inf") (by decide),
      hname (w := text "infinity") (by decide)] at h

/-! ## Hexadecimal integers -/

/-- The hexadecimal digits. -/
def hexDigits : Text := text "0123456789abcdefABCDEF"

/-- The value of a hexadecimal digit. -/
def hexDigit (c : Char) : Nat := (text "0123456789abcdef").idxOf c.toLower

/-- Hexadecimal digits in either case, at least one, and nothing else. -/
def IsHexDigits (t : Text) : Prop := t ≠ [] ∧ ∀ c ∈ t, c ∈ hexDigits

/-- The value of hexadecimal digits. -/
def hexValue (digits : Text) : Nat := (digits.map hexDigit).foldl (fun n d => 16 * n + d) 0

/-- A whole number with a sign fits 64 bits. -/
def FitsWord (negative : Bool) (n : Nat) : Prop := if negative then n ≤ 2 ^ 63 else n < 2 ^ 63

instance (negative : Bool) (n : Nat) : Decidable (FitsWord negative n) :=
  inferInstanceAs (Decidable (if negative then n ≤ 2 ^ 63 else n < 2 ^ 63))

/-- The text writes a whole number that fits 64 bits by hexadecimal digits with a sign. -/
def IsHexInteger (t : Text) (negative : Bool) (n : Nat) : Prop :=
  ∃ sign digits, t = signText sign ++ digits ∧ IsHexDigits digits ∧
    isMinus sign = negative ∧ hexValue digits = n ∧ FitsWord negative n

theorem digitIn?_eq (c : Char) : digitIn? 16 c = if c ∈ hexDigits then some (hexDigit c) else none := by
  by_cases hascii : c.toNat < 128
  · exact forall_ascii (p := fun c => digitIn? 16 c = if c ∈ hexDigits then some (hexDigit c) else none)
      (by decide +kernel) hascii
  · -- beyond ASCII there are no digits
    have hdigits : ∀ d ∈ hexDigits, d.toNat < 128 := by simp [hexDigits, text]
    have hnot {p : Char → Bool} (hp : p c = true → c.isAlphanum = true) : p c = false :=
      Bool.eq_false_iff.2 fun h => hascii (toNat_lt_of_isAlphanum (hp h))
    rw [if_neg fun hmem => hascii (hdigits c hmem), digitIn?,
      hnot (p := Char.isDigit) (by simp +contextual [Char.isAlphanum]),
      hnot (p := Char.isLower) (by simp +contextual [Char.isAlphanum, Char.isAlpha]),
      hnot (p := Char.isUpper) (by simp +contextual [Char.isAlphanum, Char.isAlpha])]
    rfl

/-- All digits of a text are read, or none is. -/
theorem mapM_digitIn?_eq_some_iff {t : Text} {digits : List Nat} :
    t.mapM (digitIn? 16) = some digits ↔ (∀ c ∈ t, c ∈ hexDigits) ∧ digits = t.map hexDigit := by
  induction t generalizing digits with
  | nil => simp [eq_comm]
  | cons c t ih =>
    rw [List.mapM_cons, digitIn?_eq]
    split
    · next hc =>
      simp only [Option.bind_eq_bind, Option.bind_some, Option.bind_eq_some_iff, ih]
      constructor
      · rintro ⟨_, ⟨ht, rfl⟩, ⟨⟩⟩
        exact ⟨List.forall_mem_cons.2 ⟨hc, ht⟩, rfl⟩
      · rintro ⟨hall, rfl⟩
        exact ⟨_, ⟨(List.forall_mem_cons.1 hall).2, rfl⟩, rfl⟩
    · next hc =>
      exact iff_of_false nofun fun h => hc (h.1 c (by simp))

/-- Hexadecimal digits begin with no sign. -/
theorem splitSign_of_isHexDigits {t : Text} (h : IsHexDigits t) : splitSign t = (false, t) := by
  unfold splitSign
  split
  · exact absurd (h.2 '-' (by simp)) (by decide)
  · exact absurd (h.2 '+' (by simp)) (by decide)
  · rfl

/-- Digits are read with the sign in front of them. -/
theorem hexadecimal?_eq (t : Text) {negative : Bool} {digits : Text}
    (hsign : splitSign t = (negative, digits)) (hdigits : IsHexDigits digits) :
    hexadecimal? t = if FitsWord negative (hexValue digits) then
      some (if negative then -(hexValue digits : Int) else hexValue digits) else none := by
  have hread := mapM_digitIn?_eq_some_iff.2 ⟨hdigits.2, rfl⟩
  simp only [hexadecimal?, hsign, List.isEmpty_eq_false_iff.2 hdigits.1, hread]
  cases negative <;> rfl

/-- What may stand behind the mark of a hexadecimal number, and what it is read as. -/
theorem hexadecimal?_eq_some_iff {t : Text} {n : Int} :
    hexadecimal? t = some n ↔
      ∃ negative m, IsHexInteger t negative m ∧ n = if negative then -(m : Int) else m := by
  constructor
  · intro h
    obtain ⟨sign, digits, rfl, hsign⟩ := exists_signText t
    have hdigits : IsHexDigits digits := by
      simp only [hexadecimal?, hsign] at h
      split at h
      · cases h
      · next hne =>
        obtain ⟨_, hread, -⟩ := Option.bind_eq_some_iff.1 h
        exact ⟨fun hnil => hne (List.isEmpty_iff.2 hnil), (mapM_digitIn?_eq_some_iff.1 hread).1⟩
    rw [hexadecimal?_eq _ hsign hdigits] at h
    obtain ⟨hfits, hn⟩ := Option.ite_none_right_eq_some.1 h
    exact ⟨isMinus sign, _, ⟨sign, digits, rfl, hdigits, rfl, rfl, hfits⟩, (Option.some.inj hn).symm⟩
  · rintro ⟨negative, m, ⟨sign, digits, rfl, hdigits, rfl, rfl, hfits⟩, rfl⟩
    rw [hexadecimal?_eq _ (splitSign_signText sign (splitSign_of_isHexDigits hdigits)) hdigits, if_pos hfits]

/-! ## Texts that convert to numbers -/

theorem dropHexMark?_eq_some_iff {t r : Text} :
    dropHexMark? t = some r ↔ ∃ mark, (mark = 'x' ∨ mark = 'X') ∧ t = '0' :: mark :: r := by
  constructor
  · intro h
    unfold dropHexMark? at h
    split at h
    · exact ⟨'x', .inl rfl, by simpa using h⟩
    · exact ⟨'X', .inr rfl, by simpa using h⟩
    · cases h
  · rintro ⟨mark, rfl | rfl, rfl⟩ <;> rfl

/-- The texts that convert to numbers, white space around them left aside. What may stand behind the
    mark of a hexadecimal number is a parameter. -/
inductive IsNumberText (IsHexadecimal : Text → Prop) : Text → Prop
  | empty : IsNumberText IsHexadecimal []
  | infinity (sign : Option Bool) : IsNumberText IsHexadecimal (signText sign ++ text "Infinity")
  | decimal (sign : Option Bool) (l : Literal) : IsNumberText IsHexadecimal (signText sign ++ l.source)
  | hexadecimal {mark : Char} {digits : Text} (hmark : mark = 'x' ∨ mark = 'X')
      (h : IsHexadecimal digits) : IsNumberText IsHexadecimal ('0' :: mark :: digits)

/-- The texts of finite numbers. A decimal is finite if it is below the middle between the greatest
    double and the next power of two. -/
inductive IsFiniteText (IsHexadecimal : Text → Prop) : Text → Prop
  | decimal (sign : Option Bool) (l : Literal) (h : l.scientific.value < 2 ^ 1024 - 2 ^ 970) :
      IsFiniteText IsHexadecimal (signText sign ++ l.source)
  | hexadecimal {mark : Char} {digits : Text} (hmark : mark = 'x' ∨ mark = 'X')
      (h : IsHexadecimal digits) : IsFiniteText IsHexadecimal ('0' :: mark :: digits)

/-- Hexadecimal digits, perhaps with a sign, that make a whole number of 64 bits. -/
def IsHexWord (t : Text) : Prop := ∃ negative n, IsHexInteger t negative n

section

variable {t : Text}

theorem ofText_eq_zero (h : Text.trim t = []) : ofText t = 0 := by
  simp [ofText, h]

theorem ofText_infinity (sign : Option Bool) (h : Text.trim t = signText sign ++ text "Infinity") :
    ofText t = if isMinus sign then -infinity else infinity := by
  rcases sign with _ | (_ | _) <;> simp [ofText, h, signText, text, isMinus]

/-- A text of the characters of a decimal is read as one. -/
theorem ofText_of_isDecimalChar (hne : Text.trim t ≠ []) (h : ∀ c ∈ Text.trim t, isDecimalChar c = true) :
    ofText t = (float? (Text.trim t)).getD nan := by
  have hname {w : Text} (hw : 'I' ∈ w) : Text.trim t ≠ w := fun heq =>
    absurd (h 'I' (heq ▸ hw)) (by decide)
  have hmark : dropHexMark? (Text.trim t) = none := by
    refine Option.eq_none_iff_forall_ne_some.2 fun r hr => ?_
    obtain ⟨mark, hmark, heq⟩ := dropHexMark?_eq_some_iff.1 hr
    have hchar := h mark (by simp [heq])
    rcases hmark with rfl | rfl <;> exact absurd hchar (by decide)
  simp [ofText, hne, hmark, hname (w := text "Infinity") (by decide), hname (w := text "+Infinity") (by decide),
    hname (w := text "-Infinity") (by decide), List.all_eq_true.2 h]

/-- A decimal converts to the double that is nearest to it. -/
theorem ofText_source (sign : Option Bool) (l : Literal) (h : Text.trim t = signText sign ++ l.source) :
    ofText t = Decimal.nearest (isMinus sign) l.scientific.digits l.scientific.exponent := by
  have hsign : ∀ c ∈ signText sign, isDecimalChar c = true := by
    rcases sign with _ | (_ | _) <;> simp [signText, isDecimalChar]
  have hne : signText sign ++ l.source ≠ [] := by simp [l.isTrimmed_source.ne_nil]
  rw [ofText_of_isDecimalChar (h ▸ hne) (h ▸ List.forall_mem_append.2 ⟨hsign, l.isDecimalChar_source⟩), h,
    float?, bits?_source]
  rfl

theorem ofText_hexadecimal {mark : Char} {rest : Text} (hmark : mark = 'x' ∨ mark = 'X')
    (h : Text.trim t = '0' :: mark :: rest) :
    ofText t = ((hexadecimal? rest).map Double.ofInt).getD nan := by
  rcases hmark with rfl | rfl <;> simp [ofText, h, text, dropHexMark?]

/-- A text that converts to a number is one of the texts of numbers. -/
theorem isNumberText_of_isNaN_eq_false (h : (ofText t).isNaN = false) :
    IsNumberText IsHexWord (Text.trim t) := by
  have hnan : ¬ nan.isNaN = false := by decide
  simp only [ofText] at h
  -- the branches of the conversion, in its own order
  split at h
  · next hempty => rw [List.isEmpty_iff.1 hempty]; exact .empty
  split at h
  · next hplus =>
    rcases (Bool.or_eq_true ..).mp hplus with hname | hname <;> rw [of_decide_eq_true hname]
    · exact .infinity none
    · exact .infinity (some false)
  split at h
  · next hminus => rw [hminus]; exact .infinity (some true)
  split at h
  · next rest hrest =>
    obtain ⟨mark, hmark, heq⟩ := dropHexMark?_eq_some_iff.1 hrest
    cases hread : hexadecimal? rest with
    | none =>
      rw [hread] at h
      exact absurd h hnan
    | some n =>
      obtain ⟨negative, m, hword, -⟩ := hexadecimal?_eq_some_iff.1 hread
      rw [heq]
      exact .hexadecimal hmark ⟨negative, m, hword⟩
  · split at h
    · next hall =>
      cases hread : bits? (Text.trim t) with
      | none =>
        rw [float?, hread] at h
        exact absurd h hnan
      | some b =>
        obtain ⟨sign, l, heq⟩ := exists_source_of_bits? (List.all_eq_true.1 hall) hread
        rw [heq]
        exact .decimal sign l
    · exact absurd h hnan

/-- What is written behind the mark of a hexadecimal number is read as a finite number. -/
theorem isFinite_hexadecimal? {rest : Text} (h : IsHexWord rest) :
    ∃ n, hexadecimal? rest = some n ∧ Double.isFinite (Double.ofInt n) = true := by
  obtain ⟨negative, m, hword⟩ := h
  refine ⟨_, hexadecimal?_eq_some_iff.2 ⟨negative, m, hword, rfl⟩, Double.isFinite_ofInt ?_⟩
  obtain ⟨-, -, -, -, -, -, hfits⟩ := hword
  unfold FitsWord at hfits
  cases negative <;> simp at hfits ⊢ <;> omega

theorem isFinite_ofText_source {sign : Option Bool} {l : Literal} (h : Text.trim t = signText sign ++ l.source) :
    Double.isFinite (ofText t) = decide (l.scientific.value < 2 ^ 1024 - 2 ^ 970) := by
  rw [ofText_source sign l h, Decimal.nearest, Double.isFinite_ofBits (Decimal.nearestBits_le _ _)]
  exact decide_eq_decide.2 (Decimal.nearestBits_lt_infinityBits_iff l.scientific)

/-- The texts of numbers convert to numbers. -/
theorem isNaN_eq_false_of_isNumberText (h : IsNumberText IsHexWord (Text.trim t)) :
    (ofText t).isNaN = false := by
  generalize htrim : Text.trim t = u at h
  cases h with
  | empty =>
    rw [ofText_eq_zero htrim]
    decide
  | infinity sign =>
    rw [ofText_infinity sign htrim]
    split <;> decide
  | decimal sign l =>
    rw [ofText_source sign l htrim]
    exact Double.isNaN_ofBits (Decimal.nearestBits_le _ _) _
  | hexadecimal hmark hword =>
    obtain ⟨n, hread, hfinite⟩ := isFinite_hexadecimal? hword
    rw [ofText_hexadecimal hmark htrim, hread]
    exact Double.isNaN_eq_false_of_isFinite hfinite

/-- The numbers that are finite are those of the texts of finite numbers and of the empty text. -/
theorem isFinite_ofText_iff :
    Text.trim t ≠ [] ∧ Double.isFinite (ofText t) = true ↔ IsFiniteText IsHexWord (Text.trim t) := by
  constructor
  · rintro ⟨hne, hfinite⟩
    have hnumber := isNumberText_of_isNaN_eq_false (Double.isNaN_eq_false_of_isFinite hfinite)
    generalize htrim : Text.trim t = u at hnumber hne
    cases hnumber with
    | empty => exact absurd rfl hne
    | infinity sign =>
      rw [ofText_infinity sign htrim] at hfinite
      split at hfinite <;> exact absurd hfinite (by decide +kernel)
    | decimal sign l =>
      rw [isFinite_ofText_source htrim] at hfinite
      exact .decimal sign l (of_decide_eq_true hfinite)
    | hexadecimal hmark hword => exact .hexadecimal hmark hword
  · intro h
    generalize htrim : Text.trim t = u at h
    cases h with
    | decimal sign l hsmall =>
      refine ⟨by simp [l.isTrimmed_source.ne_nil], ?_⟩
      rw [isFinite_ofText_source htrim]
      exact decide_eq_true hsmall
    | hexadecimal hmark hword =>
      obtain ⟨n, hread, hfinite⟩ := isFinite_hexadecimal? hword
      refine ⟨List.cons_ne_nil _ _, ?_⟩
      rw [ofText_hexadecimal hmark htrim, hread]
      exact hfinite

end

theorem ofText_trim (t : Text) : ofText (Text.trim t) = ofText t := by
  simp only [ofText, Text.trim_trim]

theorem ofAnswer_eq (t : Text) : Value.ofAnswer t =
    if Text.trim t ≠ [] ∧ Double.isFinite (ofText t) = true then .number (ofText t) else .string t := by
  rw [Value.ofAnswer, ofText_trim]
  exact if_congr (by simp) rfl rfl

/-- An answer is a number if it is the text of a finite one, and otherwise it stays as it is. -/
theorem ofAnswer_cases (t : Text) :
    IsFiniteText IsHexWord (Text.trim t) ∧ Value.ofAnswer t = .number (ofText t) ∨
      ¬ IsFiniteText IsHexWord (Text.trim t) ∧ Value.ofAnswer t = .string t := by
  rw [← isFinite_ofText_iff, ofAnswer_eq]
  by_cases h : Text.trim t ≠ [] ∧ Double.isFinite (ofText t) = true
  · exact .inl ⟨h, if_pos h⟩
  · exact .inr ⟨h, if_neg h⟩

/-- A text converts to a number exactly if it is one of the texts of numbers, and an answer is given as
    a number exactly if it is the text of a finite number. A hexadecimal number may have a sign behind its
    mark, and it has to fit 64 bits. -/
theorem reads_number_texts (t : Text) :
    ((ofText t).isNaN = false ↔ IsNumberText IsHexWord (Text.trim t)) ∧
      (IsFiniteText IsHexWord (Text.trim t) ∧ Value.ofAnswer t = .number (ofText t) ∨
        ¬ IsFiniteText IsHexWord (Text.trim t) ∧ Value.ofAnswer t = .string t) :=
  ⟨⟨isNumberText_of_isNaN_eq_false, isNaN_eq_false_of_isNumberText⟩, ofAnswer_cases t⟩

theorem IsFiniteText.isNumberText {IsHexadecimal : Text → Prop} {t : Text} (h : IsFiniteText IsHexadecimal t) :
    IsNumberText IsHexadecimal t := by
  cases h with
  | decimal sign l _ => exact .decimal sign l
  | hexadecimal hmark h => exact .hexadecimal hmark h

/-- Only the mark of a hexadecimal number has an `x` in it. -/
theorem IsNumberText.exists_of_mem_x {IsHexadecimal : Text → Prop} {t : Text} (h : IsNumberText IsHexadecimal t)
    (hx : 'x' ∈ t) : ∃ mark digits, t = '0' :: mark :: digits ∧ IsHexadecimal digits := by
  have hsign (sign : Option Bool) : 'x' ∉ signText sign := by
    rcases sign with _ | (_ | _) <;> decide
  cases h with
  | empty => cases hx
  | infinity sign => exact absurd ((List.mem_append.1 hx).resolve_left (hsign sign)) (by decide)
  | decimal sign l =>
    have hchar := l.isDecimalChar_source _ ((List.mem_append.1 hx).resolve_left (hsign sign))
    exact absurd hchar (by decide)
  | hexadecimal hmark h => exact ⟨_, _, rfl, h⟩

/-- A hexadecimal number with a sign behind its mark is read all the same, and one that has nothing but
    digits there is none if it does not fit 64 bits. -/
theorem reads_other_number_texts :
    ((ofText (text "0x-1F")).isNaN = false ∧
        Value.ofAnswer (text "0x-1F") = .number (ofText (text "0x-1F")) ∧
        ¬ IsNumberText IsHexDigits (Text.trim (text "0x-1F")) ∧
        ¬ IsFiniteText IsHexDigits (Text.trim (text "0x-1F"))) ∧
      (ofText (text "0x8000000000000000")).isNaN = true ∧
        Value.ofAnswer (text "0x8000000000000000") = .string (text "0x8000000000000000") ∧
        IsNumberText IsHexDigits (Text.trim (text "0x8000000000000000")) ∧
        IsFiniteText IsHexDigits (Text.trim (text "0x8000000000000000")) := by
  -- a sign is no digit
  have hminus : ¬ IsNumberText IsHexDigits (Text.trim (text "0x-1F")) := by
    intro h
    obtain ⟨mark, digits, heq, hdigits⟩ := h.exists_of_mem_x (by decide)
    have hrest : digits = ['-', '1', 'F'] := (List.cons.inj (List.cons.inj heq).2).2.symm
    exact absurd (hdigits.2 '-' (by simp [hrest])) (by decide +kernel)
  -- too many digits for the reader, and a finite number all the same
  have hlarge : IsFiniteText IsHexDigits (Text.trim (text "0x8000000000000000")) := by
    rw [show Text.trim (text "0x8000000000000000") = '0' :: 'x' :: '8' :: List.replicate 15 '0' by decide +kernel]
    exact .hexadecimal (.inl rfl) ⟨List.cons_ne_nil _ _, by simp [hexDigits, text]⟩
  refine ⟨⟨by decide +kernel, ?_, hminus, fun h => hminus h.isNumberText⟩, by decide +kernel, ?_,
    hlarge.isNumberText, hlarge⟩
  · rw [ofAnswer_eq, if_pos (by decide +kernel)]
  · rw [ofAnswer_eq, if_neg (by decide +kernel)]

end Numeral

end Pseudocode
