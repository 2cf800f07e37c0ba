import Pseudocode.Number.Numeral
import Pseudocode.Proofs.Rounding
import Pseudocode.Proofs.Text

/-!
# Shortest digits

The shortest decimal of a double lies in the rounding interval of the double, so it reads back as
the same double. The search for it succeeds because a grid that is finer than a quarter of the
distance between doubles has a point in every rounding interval.

* `Decimal.shortest_roundsTo`        the shortest decimal rounds to the double
* `Numeral.decimal?_positional`      a decimal that is written out is read as the same decimal
* `Numeral.bits?_shortestText`       the text of a double is read as the same double
-/

namespace Pseudocode

namespace Decimal

open Double

/-- The number that a decimal is. -/
def Scientific.value (d : Scientific) : ℚ := d.digits * 10 ^ d.exponent

theorem ten_zpow_pos (k : Int) : (0 : ℚ) < 10 ^ k := zpow_pos (by norm_num) k

/-- Powers of ten and of two, by `10 ^ 3 ≤ 2 ^ 10` and `2 ^ 23 ≤ 10 ^ 7`. -/
theorem ten_zpow_le_two_zpow {k t : Int} (hup : 0 ≤ k → 10 * k ≤ 3 * t)
    (hdown : k < 0 → 23 * k ≤ 7 * t) : (10 : ℚ) ^ k ≤ 2 ^ t := by
  -- `10 ^ 3 ≤ 2 ^ 10` above one, `2 ^ 23 ≤ 10 ^ 7` below
  rcases le_or_gt 0 k with hk | hk
  · refine le_of_pow_le_pow_left₀ (n := 3) (by norm_num) (two_zpow_pos t).le ?_
    calc ((10 : ℚ) ^ k) ^ 3 = (10 ^ 3) ^ k := by
          rw [← zpow_natCast, ← zpow_mul, mul_comm, zpow_mul, zpow_natCast]
      _ ≤ (2 ^ 10) ^ k := zpow_le_zpow_left₀ hk (by norm_num) (by norm_num)
      _ = 2 ^ (10 * k) := by rw [zpow_mul]; norm_num
      _ ≤ 2 ^ (3 * t) := two_zpow_mono (hup hk)
      _ = ((2 : ℚ) ^ t) ^ 3 := by rw [← zpow_natCast, ← zpow_mul, mul_comm]; rfl
  · refine le_of_pow_le_pow_left₀ (n := 7) (by norm_num) (two_zpow_pos t).le ?_
    obtain ⟨n, rfl⟩ : ∃ n : Nat, k = -n := ⟨k.natAbs, by omega⟩
    calc ((10 : ℚ) ^ (-(n : Int))) ^ 7 = ((10 ^ 7) ^ n)⁻¹ := by
          rw [zpow_neg, zpow_natCast, inv_pow, ← pow_mul, ← pow_mul, mul_comm]
      _ ≤ ((2 ^ 23) ^ n)⁻¹ := by
          gcongr
          norm_num
      _ = 2 ^ (23 * -(n : Int)) := by
          rw [← pow_mul, ← zpow_natCast, ← zpow_neg]
          congr 1
          push_cast
          ring
      _ ≤ 2 ^ (7 * t) := two_zpow_mono (hdown hk)
      _ = ((2 : ℚ) ^ t) ^ 7 := by rw [← zpow_natCast, ← zpow_mul, mul_comm]; rfl

/-- The parts of a power of ten with an exponent of either sign. -/
theorem ten_pow_toNat (k : Int) : (10 : ℚ) ^ k.toNat = 10 ^ (-k).toNat * 10 ^ k := by
  rw [← zpow_natCast, ← zpow_natCast, ← zpow_add₀ (by norm_num)]
  congr 1
  omega

/-! ## The search -/

/-- The numbers in an interval. -/
structure Interval.Holds (i : Interval) (x : ℚ) : Prop where
  low : i.low * 2 ^ i.exponent ≤ x
  high : x ≤ i.high * 2 ^ i.exponent
  strict : i.closed = false → i.low * 2 ^ i.exponent < x ∧ x < i.high * 2 ^ i.exponent

theorem inside_eq_true {closed : Bool} {low high point : Nat} :
    inside closed low high point = true ↔
      low ≤ point ∧ point ≤ high ∧ (closed = false → low < point ∧ point < high) := by
  cases closed with
  | true => simp [inside]
  | false =>
    simp only [inside, Bool.and_eq_true, decide_eq_true_eq, Bool.false_eq_true, if_false,
      forall_const]
    omega

section

variable (i : Interval) (k : Int)

/-- A common unit of the ends of an interval and of the points of a grid. -/
private def unitInverse : ℚ := 2 ^ (-i.exponent).toNat * 10 ^ (-k).toNat

private theorem unitInverse_pos : 0 < unitInverse i k := by
  unfold unitInverse
  positivity

private theorem cast_up :
    ((2 ^ i.exponent.toNat * 10 ^ (-k).toNat : Nat) : ℚ) = 2 ^ i.exponent * unitInverse i k := by
  rw [unitInverse]
  push_cast
  rw [two_pow_toNat]
  ring

private theorem cast_unit :
    ((2 ^ (-i.exponent).toNat * 10 ^ k.toNat : Nat) : ℚ) = 10 ^ k * unitInverse i k := by
  rw [unitInverse]
  push_cast
  rw [ten_pow_toNat]
  ring

end

private theorem holds_of_inside {i : Interval} {k : Int} {point : Nat}
    (h : inside i.closed (i.low * (2 ^ i.exponent.toNat * 10 ^ (-k).toNat))
      (i.high * (2 ^ i.exponent.toNat * 10 ^ (-k).toNat))
      (point * (2 ^ (-i.exponent).toNat * 10 ^ k.toNat)) = true) :
    i.Holds (point * 10 ^ k) := by
  obtain ⟨hlow, hhigh, hstrict⟩ := inside_eq_true.1 h
  have hpos := unitInverse_pos i k
  -- both sides are scaled to whole numbers by the same factor
  have hle {a b : Nat} {x y : ℚ} (ha : (a : ℚ) = x * unitInverse i k)
      (hb : (b : ℚ) = y * unitInverse i k) : (a ≤ b ↔ x ≤ y) ∧ (a < b ↔ x < y) := by
    rw [← Nat.cast_le (α := ℚ), ← Nat.cast_lt (α := ℚ), ha, hb]
    exact ⟨mul_le_mul_iff_of_pos_right hpos, mul_lt_mul_iff_of_pos_right hpos⟩
  have hup (n : Nat) : ((n * (2 ^ i.exponent.toNat * 10 ^ (-k).toNat) : Nat) : ℚ) =
      n * 2 ^ i.exponent * unitInverse i k := by
    rw [Nat.cast_mul, cast_up, mul_assoc]
  have hunit : ((point * (2 ^ (-i.exponent).toNat * 10 ^ k.toNat) : Nat) : ℚ) =
      point * 10 ^ k * unitInverse i k := by
    rw [Nat.cast_mul, cast_unit, mul_assoc]
  exact ⟨(hle (hup _) hunit).1.1 hlow, (hle hunit (hup _)).1.1 hhigh, fun hopen =>
    ⟨(hle (hup _) hunit).2.1 (hstrict hopen).1, (hle hunit (hup _)).2.1 (hstrict hopen).2⟩⟩

/-- A point that stands for an interval lies in it. -/
theorem holds_of_onGrid? {i : Interval} {k : Int} {digits : Nat}
    (h : i.onGrid? k = some digits) : i.Holds (digits * 10 ^ k) := by
  simp only [Interval.onGrid?] at h
  split at h
  · next hboth =>
    obtain ⟨hbelow, habove⟩ := Bool.and_eq_true_iff.1 hboth
    split at h <;> obtain rfl := Option.some.inj h
    · exact holds_of_inside hbelow
    · exact holds_of_inside habove
  · split at h
    · next hbelow =>
      obtain rfl := Option.some.inj h
      exact holds_of_inside hbelow
    · split at h
      · next habove =>
        obtain rfl := Option.some.inj h
        exact holds_of_inside habove
      · cases h

/-- A grid that is fine enough has a point in the interval: the one below the middle. -/
theorem onGrid?_isSome {i : Interval} {k : Int} (hfine : (10 : ℚ) ^ k ≤ 2 ^ i.exponent)
    (hlow : i.low < i.middle) (hhigh : i.middle < i.high) : (i.onGrid? k).isSome := by
  have hpos := unitInverse_pos i k
  simp only [Interval.onGrid?]
  have hunit : 2 ^ (-i.exponent).toNat * 10 ^ k.toNat ≤ 2 ^ i.exponent.toNat * 10 ^ (-k).toNat := by
    rw [← Nat.cast_le (α := ℚ), cast_up, cast_unit]
    gcongr
  have hunitPos : 0 < 2 ^ (-i.exponent).toNat * 10 ^ k.toNat := by positivity
  generalize 2 ^ (-i.exponent).toNat * 10 ^ k.toNat = unit at *
  generalize 2 ^ i.exponent.toNat * 10 ^ (-k).toNat = up at *
  -- the grid is finer than the interval, so the point below the middle lies inside
  have hbelow : inside i.closed (i.low * up) (i.high * up) (i.middle * up / unit * unit) = true := by
    rw [inside_eq_true]
    have hdiv : i.middle * up / unit * unit + i.middle * up % unit = i.middle * up := by
      rw [Nat.mul_comm]
      exact Nat.div_add_mod _ _
    have hmod : i.middle * up % unit < unit := Nat.mod_lt _ hunitPos
    have hlow' : (i.low + 1) * up ≤ i.middle * up := Nat.mul_le_mul_right _ hlow
    have hhigh' : (i.middle + 1) * up ≤ i.high * up := Nat.mul_le_mul_right _ hhigh
    rw [Nat.add_one_mul] at hlow' hhigh'
    omega
  simp only [hbelow, Bool.true_and, if_true]
  split
  · split <;> rfl
  · rfl

/-- The search ends at the first grid with a point in the interval. -/
theorem search_eq_some {i : Interval} {steps : Nat} {k : Int}
    (h : (i.onGrid? (k - steps)).isSome) :
    ∃ d, i.search steps k = some d ∧ k - steps ≤ d.exponent ∧
      i.onGrid? d.exponent = some d.digits := by
  -- from the coarsest grid down to the one that is known to have a point
  induction steps generalizing k with
  | zero =>
    obtain ⟨digits, hdigits⟩ := Option.isSome_iff_exists.1 h
    rw [Nat.cast_zero, sub_zero] at hdigits
    exact ⟨⟨digits, k⟩, by simp [Interval.search, hdigits], by simp, hdigits⟩
  | succ steps ih =>
    rw [Interval.search]
    cases hgrid : i.onGrid? k with
    | some digits => exact ⟨⟨digits, k⟩, rfl, by simp only; omega, hgrid⟩
    | none =>
      have hnext : k - 1 - steps = k - (steps + 1 : Nat) := by push_cast; ring
      obtain ⟨d, hd, hle, hgrid⟩ := ih (by rwa [hnext])
      exact ⟨d, hd, by omega, hgrid⟩

/-! ## The shortest decimal -/

theorem roundsTo_of_holds {m : Nat} {q : Int} {x : ℚ} (hm : 0 < m)
    (h : (Interval.of m q).Holds x) : RoundsTo m q x := by
  have hq := two_zpow_pos q
  -- the interval is counted in quarters of the unit
  have hscale : (2 : ℚ) ^ (q - 2) = 2 ^ q / 4 := by
    rw [zpow_sub₀ (by norm_num)]
    norm_num
  obtain ⟨hlow, hhigh, hstrict⟩ := h
  simp only [Interval.of, hscale] at hlow hhigh hstrict
  have hlowCast : ((4 * m - (if m = 2 ^ 52 then 1 else 2) : Nat) : ℚ) =
      4 * m - (if m = 2 ^ 52 then 1 else 2) := by
    rw [Nat.cast_sub (by split <;> omega)]
    split <;> push_cast <;> rfl
  have hhighCast : ((4 * m + 2 : Nat) : ℚ) = 4 * m + 2 := by push_cast; rfl
  have hquarter : (if m = 2 ^ 52 then 1 / 4 else 1 / 2 : ℚ) = (if m = 2 ^ 52 then 1 else 2) / 4 := by
    split <;> norm_num
  rw [hlowCast] at hlow hstrict
  rw [hhighCast] at hhigh hstrict
  refine ⟨?_, ?_, fun hodd => ?_⟩
  · rw [le_div_iff₀ hq, hquarter]
    linarith
  · rw [div_le_iff₀ hq]
    linarith
  · have hne : m ≠ 2 ^ 52 := by
      rintro rfl
      norm_num at hodd
    obtain ⟨hlow, hhigh⟩ := hstrict (by simp [hodd])
    rw [if_neg hne] at hlow
    rw [lt_div_iff₀ hq, div_lt_iff₀ hq]
    constructor <;> linarith

/-- The shortest decimal of a double rounds to it. -/
theorem shortest_roundsTo {m : Nat} {q : Int} (h : IsRegular m q) :
    RoundsTo m q (shortest m q).value ∧ -400 ≤ (shortest m q).exponent := by
  have hm := h.pos
  have hlog : (m.log2 : Int) ≤ 52 := by
    have : m.log2 < 53 := (Nat.log2_lt hm.ne').2 h.lt
    omega
  have hleast := h.least
  have hgreatest := h.greatest
  -- the last grid that is tried is fine enough
  have hfine : (10 : ℚ) ^ ((q + m.log2) * 30103 / 100000 + 2 - (24 : Nat) : Int) ≤ 2 ^ (q - 2) := by
    refine ten_zpow_le_two_zpow (fun hk => ?_) fun hk => ?_ <;> omega
  have hgrid : ((Interval.of m q).onGrid? ((q + m.log2) * 30103 / 100000 + 2 - (24 : Nat))).isSome :=
    onGrid?_isSome hfine (by simp only [Interval.of]; split <;> omega)
      (by simp only [Interval.of]; omega)
  obtain ⟨d, hd, hexponent, hdigits⟩ := search_eq_some hgrid
  have hshortest : shortest m q = d := by
    simp only [shortest, hd, Option.getD_some]
  rw [hshortest]
  exact ⟨roundsTo_of_holds hm (holds_of_onGrid? hdigits), by omega⟩

/-! ## Reading a decimal -/

/-- A decimal whose power is computed. -/
theorem nearestBits_eq {d : Scientific} (hpos : 0 < d.digits)
    (hlow : 3 * (-400 - d.exponent) ≤ d.digits.log2) (hhigh : d.exponent ≤ 400) :
    nearestBits d.digits d.exponent =
      magnitudeBits (d.digits * 10 ^ d.exponent.toNat) (10 ^ (-d.exponent).toNat) := by
  have hlarge : ¬(d.digits = 0 ∨ (d.digits.log2 : Int) < 3 * (-400 - d.exponent)) := by omega
  rw [nearestBits, if_neg (by simpa using hlarge), if_neg (by omega)]

/-- The fraction that such a decimal is. -/
theorem Scientific.value_eq_div (d : Scientific) :
    ((d.digits * 10 ^ d.exponent.toNat : Nat) : ℚ) / ((10 ^ (-d.exponent).toNat : Nat) : ℚ) =
      d.value := by
  push_cast
  rw [ten_pow_toNat d.exponent, Scientific.value]
  field_simp

/-- A decimal that rounds to a double is the nearest decimal to it. -/
theorem nearestBits_of_roundsTo {m : Nat} {q : Int} (h : IsRegular m q) {d : Scientific}
    (hlow : -400 ≤ d.exponent) (hhigh : d.exponent ≤ 0) (hvalue : RoundsTo m q d.value) :
    nearestBits d.digits d.exponent = regularBits m q := by
  have hq := two_zpow_pos q
  have hm : (1 : ℚ) ≤ m := by exact_mod_cast h.pos
  -- zero has a case of its own in the reader, and it lies below the interval
  have hpositive : 0 < d.value := by
    have hlow := hvalue.low
    rw [le_div_iff₀ hq] at hlow
    refine lt_of_lt_of_le (mul_pos ?_ hq) hlow
    split <;> linarith
  have hdigits : 0 < d.digits := by
    by_contra hzero
    simp [Scientific.value, Nat.eq_zero_of_not_pos hzero] at hpositive
  have hcomputed : nearestBits d.digits d.exponent =
      magnitudeBits (d.digits * 10 ^ d.exponent.toNat) (10 ^ (-d.exponent).toNat) :=
    nearestBits_eq hdigits (by omega) (by omega)
  rw [hcomputed]
  exact magnitudeBits_eq h (by positivity) (by positivity) (by rwa [d.value_eq_div])

/-- No decimal is read as more than the infinity. -/
theorem nearestBits_le (digits : Nat) (exponent : Int) : nearestBits digits exponent ≤ infinityBits := by
  have hmagnitude (num den : Nat) : magnitudeBits num den ≤ infinityBits := by
    unfold magnitudeBits
    split
    · exact Nat.zero_le _
    · exact min_le_right _ _
  simp only [nearestBits]
  split
  · exact Nat.zero_le _
  · split
    · exact le_refl _
    · exact hmagnitude _ _

theorem two_zpow_le_ten_zpow {k : Int} (hk : 0 ≤ k) : (2 : ℚ) ^ (3 * k) ≤ 10 ^ k := by
  rw [zpow_mul]
  exact zpow_le_zpow_left₀ hk (by norm_num) (by norm_num)

/-- A decimal is read as a finite number if it is below the middle between the greatest double and the
    next power of two. -/
theorem nearestBits_lt_infinityBits_iff (d : Scientific) :
    nearestBits d.digits d.exponent < infinityBits ↔ d.value < 2 ^ 1024 - 2 ^ 970 := by
  have hone : (1 : ℚ) < 2 ^ 1024 - 2 ^ 970 := by
    rw [middle_eq]
    exact one_lt_mul_of_lt_of_le (by norm_num) (one_le_zpow₀ one_le_two (by norm_num))
  rcases Nat.eq_zero_or_pos d.digits with hzero | hpos
  · refine iff_of_true (by simp [nearestBits, hzero, infinityBits]) ?_
    rw [Scientific.value, hzero, Nat.cast_zero, zero_mul]
    exact zero_lt_one.trans hone
  rcases lt_or_ge (d.digits.log2 : Int) (3 * (-400 - d.exponent)) with hsmall | hlow
  · -- the number is less than one
    have hdigits : (d.digits : ℚ) ≤ 10 ^ (-d.exponent) := by
      calc (d.digits : ℚ) ≤ 2 ^ ((d.digits.log2 : Int) + 1) := by
            exact_mod_cast Nat.lt_log2_self.le
        _ ≤ 2 ^ (3 * -d.exponent) := two_zpow_mono (by omega)
        _ ≤ 10 ^ (-d.exponent) := two_zpow_le_ten_zpow (by omega)
    refine iff_of_true ?_ (lt_of_le_of_lt ?_ hone)
    · simp [nearestBits, hsmall, infinityBits]
    · rwa [Scientific.value, ← le_div_iff₀ (ten_zpow_pos _), one_div, ← zpow_neg]
  rcases le_or_gt d.exponent 400 with hhigh | hlarge
  · rw [nearestBits_eq hpos hlow hhigh, magnitudeBits_lt_infinityBits_iff (by positivity),
      d.value_eq_div]
  -- more than the largest double, whatever the digits are
  · have hinfinite : nearestBits d.digits d.exponent = infinityBits := by
      rw [nearestBits, if_neg (by simp; omega), if_pos hlarge]
    refine iff_of_false (by rw [hinfinite]; exact lt_irrefl _) (not_lt.2 ?_)
    calc (2 : ℚ) ^ 1024 - 2 ^ 970 ≤ 2 ^ 1024 := sub_le_self _ (pow_pos two_pos 970).le
      _ = 2 ^ (1024 : Int) := (zpow_natCast 2 1024).symm
      _ ≤ 2 ^ (3 * d.exponent) := two_zpow_mono (by omega)
      _ ≤ 10 ^ d.exponent := two_zpow_le_ten_zpow (by omega)
      _ ≤ d.value := le_mul_of_one_le_left (ten_zpow_pos _).le (by exact_mod_cast hpos)

end Decimal

/-- A bit pattern without a sign is not below zero. -/
theorem Double.isBelowZero_ofBits {bits : Nat} (h : bits < 2 ^ 63) :
    (ofBits bits).isBelowZero = false := by
  have hnegative : decide (2 ^ 63 ≤ bits) = false := by simpa using h
  unfold ofBits
  simp only [hnegative]
  split
  · split <;> rfl
  · split <;> rfl

namespace Numeral

open Decimal Double

theorem digitsValue_eq (digits : Text) : digitsValue digits = Nat.ofDigitChars 10 digits 0 := by
  rw [Nat.ofDigitChars_eq_foldl]
  rfl

theorem digitsValue_ofNat (n : Nat) : digitsValue (Text.ofNat n) = n := by
  rw [digitsValue_eq]
  exact Nat.ofDigitChars_ten_toDigits

theorem digitsValue_append (s t : Text) :
    digitsValue (s ++ t) = Nat.ofDigitChars 10 t (digitsValue s) := by
  rw [digitsValue_eq, digitsValue_eq, Nat.ofDigitChars_append]

theorem digitsValue_append_zeros (s : Text) (n : Nat) :
    digitsValue (s ++ List.replicate n '0') = digitsValue s * 10 ^ n := by
  rw [digitsValue_append, Nat.ofDigitChars_replicate_zero, Nat.mul_comm]

theorem digitsValue_zeros_append (n : Nat) (s : Text) :
    digitsValue (List.replicate n '0' ++ s) = digitsValue s := by
  rw [digitsValue_append, digitsValue_eq (List.replicate _ _), Nat.ofDigitChars_replicate_zero,
    Nat.mul_zero, digitsValue_eq]

/-- The digits that a text begins with. -/
theorem splitDigits_append {digits : Text} (hdigits : ∀ c ∈ digits, c.isDigit = true) (rest : Text)
    (hrest : ∀ c ∈ rest.head?, c.isDigit = false) :
    splitDigits (digits ++ rest) = (digits, rest) := by
  rw [splitDigits, Text.takeWhile_append_of_ends hdigits hrest,
    Text.dropWhile_append_of_ends hdigits hrest]

/-- A text that begins with a digit has no sign. -/
theorem splitSign_of_isDigit {c : Char} {t : Text} (hc : c.isDigit = true) :
    splitSign (c :: t) = (false, c :: t) := by
  unfold splitSign
  split
  · simp_all
  · simp_all
  · rfl

/-- A decimal without an exponent: digits, and perhaps a point and more digits. -/
structure IsPositional (t whole fraction : Text) : Prop where
  ne_nil : whole ≠ []
  digits : ∀ c ∈ whole, c.isDigit = true
  fractionDigits : ∀ c ∈ fraction, c.isDigit = true
  text_eq : t = whole ∧ fraction = [] ∨ t = whole ++ '.' :: fraction

theorem IsPositional.cons {t whole fraction : Text} (h : IsPositional t whole fraction) :
    ∃ c r, t = c :: r ∧ c.isDigit = true := by
  obtain ⟨c, r, rfl⟩ := List.exists_cons_of_ne_nil h.ne_nil
  have hc := h.digits c (by simp)
  rcases h.text_eq with ⟨rfl, -⟩ | rfl
  · exact ⟨c, r, rfl, hc⟩
  · exact ⟨c, _, rfl, hc⟩

theorem decimal?_of_isPositional {t whole fraction : Text} (h : IsPositional t whole fraction) :
    decimal? t = some ⟨digitsValue (whole ++ fraction), -fraction.length⟩ := by
  have hne : whole.isEmpty = false := by simpa using h.ne_nil
  rcases h.text_eq with ⟨rfl, rfl⟩ | rfl
  · have hsplit := splitDigits_append h.digits [] (by simp)
    rw [List.append_nil] at hsplit
    simp [decimal?, hsplit, hne, exponent?]
  · have hsplit := splitDigits_append h.digits ('.' :: fraction) (by simp)
    have hfraction := splitDigits_append h.fractionDigits [] (by simp)
    rw [List.append_nil] at hfraction
    simp [decimal?, hsplit, hfraction, hne, exponent?]

/-- A decimal that is written out is read as the same number. -/
theorem positional_isPositional (d : Scientific) :
    ∃ whole fraction, IsPositional (positional d) whole fraction ∧
      (⟨digitsValue (whole ++ fraction), -fraction.length⟩ : Scientific).value = d.value ∧
      (-(fraction.length : Int) = d.exponent ∨ fraction = []) := by
  have hdigits : ∀ c ∈ Text.ofNat d.digits, c.isDigit = true := fun c hc =>
    Nat.isDigit_of_mem_toDigits (by omega) (by omega) hc
  have hzeros (n : Nat) : ∀ c ∈ List.replicate n '0', c.isDigit = true := fun c hc => by
    rw [(List.mem_replicate.1 hc).2]
    rfl
  have hne : Text.ofNat d.digits ≠ [] := Nat.toDigits_ne_nil
  simp only [positional]
  -- zeros behind the digits, a point among them, or zeros in front of them
  by_cases hexponent : 0 ≤ d.exponent
  · rw [if_pos hexponent]
    refine ⟨Text.ofNat d.digits ++ List.replicate d.exponent.toNat '0', [],
      ⟨by simp [hne], ?_, by simp, .inl ⟨rfl, rfl⟩⟩, ?_, .inr rfl⟩
    · intro c hc
      exact (List.mem_append.1 hc).elim (hdigits c) (hzeros _ c)
    · rw [List.append_nil, digitsValue_append_zeros, digitsValue_ofNat]
      simp only [Scientific.value, List.length_nil]
      push_cast
      rw [← zpow_natCast, Int.toNat_of_nonneg hexponent]
      simp
  · rw [if_neg hexponent]
    have hplaces : ((-d.exponent).toNat : Int) = -d.exponent := Int.toNat_of_nonneg (by omega)
    generalize (-d.exponent).toNat = places at hplaces ⊢
    by_cases hlong : places < (Text.ofNat d.digits).length
    · rw [if_pos hlong]
      refine ⟨_, _, ⟨?_, fun c hc => hdigits c (List.mem_of_mem_take hc),
        fun c hc => hdigits c (List.mem_of_mem_drop hc), .inr rfl⟩, ?_, .inl ?_⟩
      · rw [ne_eq, List.take_eq_nil_iff]
        simp only [hne, or_false]
        omega
      · rw [List.take_append_drop, digitsValue_ofNat]
        simp only [Scientific.value, List.length_drop]
        congr 2
        omega
      · rw [List.length_drop]
        omega
    · rw [if_neg hlong]
      have hlength : (List.replicate (places - (Text.ofNat d.digits).length) '0' ++
          Text.ofNat d.digits).length = places := by
        rw [List.length_append, List.length_replicate]
        omega
      refine ⟨['0'], List.replicate (places - (Text.ofNat d.digits).length) '0' ++
        Text.ofNat d.digits, ⟨by simp, by simp, ?_, .inr rfl⟩, ?_, .inl ?_⟩
      · intro c hc
        exact (List.mem_append.1 hc).elim (hzeros _ c) (hdigits c)
      · have hzero := digitsValue_zeros_append 1
          (List.replicate (places - (Text.ofNat d.digits).length) '0' ++ Text.ofNat d.digits)
        have hvalue := digitsValue_zeros_append (places - (Text.ofNat d.digits).length)
          (Text.ofNat d.digits)
        simp only [Scientific.value, hlength]
        rw [show -(places : Int) = d.exponent by omega, show ['0'] = List.replicate 1 '0' from rfl,
          hzero, hvalue, digitsValue_ofNat]
      · rw [hlength]
        omega

/-- A decimal without a sign is read as the nearest double. -/
theorem bits?_of_isPositional {t whole fraction : Text} (ht : IsPositional t whole fraction) :
    bits? t = some (nearestBits (digitsValue (whole ++ fraction)) (-fraction.length)) := by
  have hsign : splitSign t = (false, t) := by
    obtain ⟨c, r, rfl⟩ := List.exists_cons_of_ne_nil ht.ne_nil
    have hc := ht.digits c (by simp)
    rcases ht.text_eq with ⟨rfl, -⟩ | rfl
    · exact splitSign_of_isDigit hc
    · exact splitSign_of_isDigit hc
  simp [bits?, hsign, decimal?_of_isPositional ht, signBit]

/-- The text of a double that is not negative is a decimal, which reads back as the same bits. -/
theorem bits?_shortestText {bits : Nat} (h : bits < infinityBits) :
    ∃ whole fraction, IsPositional (shortestText (ofBits bits)) whole fraction ∧
      bits? (shortestText (ofBits bits)) = some bits := by
  -- zero is written as such, every other double by its shortest digits
  rcases Nat.eq_zero_or_pos bits with rfl | hpos
  · refine ⟨['0'], [], ⟨by simp, by simp, by simp, .inl ⟨rfl, rfl⟩⟩, ?_⟩
    rfl
  · obtain ⟨m, q, hdouble, hregular, rfl⟩ := ofBits_of_lt hpos h
    rw [hdouble]
    have htext : shortestText (.finite false m q) = positional (shortest m q) := by
      simp [shortestText, hregular.pos.ne']
    rw [htext]
    obtain ⟨whole, fraction, ht, hvalue, hexponent⟩ := positional_isPositional (shortest m q)
    obtain ⟨hrounds, hleast⟩ := shortest_roundsTo hregular
    refine ⟨whole, fraction, ht, ?_⟩
    rw [bits?_of_isPositional ht]
    congr 1
    exact nearestBits_of_roundsTo (d := ⟨digitsValue (whole ++ fraction), -fraction.length⟩) hregular
      (by rcases hexponent with h | h <;> simp only <;> [omega; simp [h]]) (by simp) (by rwa [hvalue])

end Numeral

end Pseudocode
