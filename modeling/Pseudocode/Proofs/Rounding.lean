import Mathlib
import Pseudocode.Number.Decimal

/-!
# Rounding to a double

A fraction is rounded to the double whose rounding interval it lies in. Fractions and doubles are
compared as rational numbers here.

* `Double.ofBits_of_lt`           a bit pattern below that of infinity, as significand and exponent
* `Double.magnitudeBits_eq`       the double of a fraction in a rounding interval
* `Double.magnitudeBits_lt_infinityBits_iff`  which fractions round to a finite double
-/

namespace Pseudocode.Double

/-- A positive finite double is `m · 2 ^ q` for one such pair. -/
structure IsRegular (m : Nat) (q : Int) : Prop where
  pos : 0 < m
  lt : m < 2 ^ 53
  least : -1074 ≤ q
  greatest : q ≤ 971
  normal : q = -1074 ∨ 2 ^ 52 ≤ m

/-- The bit pattern of a positive finite double. -/
def regularBits (m : Nat) (q : Int) : Nat := (q + 1074).toNat * 2 ^ 52 + m

/-- Exponent and significand of a bit pattern. A significand with the leading bit counts as one more
    in the exponent field. -/
theorem ofBits_of_lt {bits : Nat} (hpos : 0 < bits) (hlt : bits < infinityBits) :
    ∃ m q, ofBits bits = .finite false m q ∧ IsRegular m q ∧ bits = regularBits m q := by
  simp only [infinityBits] at hlt
  have hsplit : bits = 2 ^ 52 * (bits / 2 ^ 52) + bits % 2 ^ 52 := (Nat.div_add_mod _ _).symm
  have hfraction : bits % 2 ^ 52 < 2 ^ 52 := Nat.mod_lt _ (by norm_num)
  have hfield : bits / 2 ^ 52 < 2047 := by omega
  have hmod : bits / 2 ^ 52 % 2 ^ 11 = bits / 2 ^ 52 := Nat.mod_eq_of_lt (by omega)
  have hsign : decide (2 ^ 63 ≤ bits) = false := by
    rw [decide_eq_false_iff_not]
    omega
  simp only [ofBits, hmod, hsign, regularBits]
  rw [if_neg (by omega)]
  -- subnormal, or normal with the hidden bit
  by_cases hsub : bits / 2 ^ 52 = 0
  · rw [if_pos hsub]
    exact ⟨_, _, rfl, ⟨by omega, by omega, by omega, by omega, .inl rfl⟩, by omega⟩
  · rw [if_neg hsub]
    exact ⟨_, _, rfl, ⟨by omega, by omega, by omega, by omega, .inr (by omega)⟩, by omega⟩

/-! ## Scales -/

theorem two_zpow_pos (q : Int) : (0 : ℚ) < 2 ^ q := zpow_pos (by norm_num) q

theorem two_zpow_mono {k k' : Int} (h : k ≤ k') : (2 : ℚ) ^ k ≤ 2 ^ k' :=
  zpow_le_zpow_right₀ one_le_two h

/-- The parts of a power of two with an exponent of either sign. -/
theorem two_pow_toNat (q : Int) : (2 : ℚ) ^ q.toNat = 2 ^ (-q).toNat * 2 ^ q := by
  rw [← zpow_natCast, ← zpow_natCast, ← zpow_add₀ (by norm_num)]
  congr 1
  omega

theorem atScale_pos {den : Nat} (hden : 0 < den) (num : Nat) (q : Int) : 0 < (atScale num den q).2 :=
  Nat.mul_pos hden (Nat.two_pow_pos _)

/-- A fraction at a scale is the fraction in units of that power of two. -/
theorem atScale_eq {den : Nat} (hden : 0 < den) (num : Nat) (q : Int) :
    ((atScale num den q).1 : ℚ) / (atScale num den q).2 = num / den / 2 ^ q := by
  have hden' : (den : ℚ) ≠ 0 := by positivity
  have hq := (two_zpow_pos q).ne'
  simp only [atScale]
  push_cast
  rw [two_pow_toNat q]
  field_simp

/-- A quotient that is at most half a unit away from a number, and less if that number is odd. -/
theorem roundQuotient_eq {num den m : Nat} (hden : 0 < den) (hlow : (m : ℚ) - 1 / 2 ≤ num / den)
    (hhigh : (num : ℚ) / den ≤ m + 1 / 2)
    (hodd : m % 2 = 1 → (m : ℚ) - 1 / 2 < num / den ∧ (num : ℚ) / den < m + 1 / 2) :
    roundQuotient num den = m := by
  have hdenq : (0 : ℚ) < den := by exact_mod_cast hden
  have hlow' : 2 * (den * m) ≤ 2 * num + den := by
    rw [le_div_iff₀ hdenq] at hlow
    have : (2 * (den * m) : ℚ) ≤ 2 * num + den := by linarith
    exact_mod_cast this
  have hhigh' : 2 * num ≤ 2 * (den * m) + den := by
    rw [div_le_iff₀ hdenq] at hhigh
    have : (2 * num : ℚ) ≤ 2 * (den * m) + den := by linarith
    exact_mod_cast this
  have hodd' (h : m % 2 = 1) : 2 * (den * m) < 2 * num + den ∧ 2 * num < 2 * (den * m) + den := by
    obtain ⟨h₁, h₂⟩ := hodd h
    rw [lt_div_iff₀ hdenq] at h₁
    rw [div_lt_iff₀ hdenq] at h₂
    have h₁ : (2 * (den * m) : ℚ) < 2 * num + den := by linarith
    have h₂ : (2 * num : ℚ) < 2 * (den * m) + den := by linarith
    exact ⟨by exact_mod_cast h₁, by exact_mod_cast h₂⟩
  have hsplit : num = den * (num / den) + num % den := (Nat.div_add_mod _ _).symm
  have hrest : num % den < den := Nat.mod_lt _ hden
  simp only [roundQuotient]
  generalize num / den = quotient at hsplit ⊢
  generalize num % den = rest at hsplit hrest ⊢
  -- the number is the quotient or the next one
  have hle : quotient ≤ m := by
    by_contra hgt
    have : den * (m + 1) ≤ den * quotient := Nat.mul_le_mul_left _ (by omega)
    rw [Nat.mul_succ] at this
    omega
  have hge : m ≤ quotient + 1 := by
    by_contra hlt
    have : den * (quotient + 2) ≤ den * m := Nat.mul_le_mul_left _ (by omega)
    rw [Nat.mul_add] at this
    omega
  have heven : m % 2 = 0 ∨ m % 2 = 1 := Nat.mod_two_eq_zero_or_one m
  obtain rfl | rfl : m = quotient ∨ m = quotient + 1 := by omega
  · by_cases hless : 2 * rest < den
    · rw [if_pos hless]
    · rw [if_neg hless]
      have heven : m % 2 = 0 := heven.resolve_right fun h => by
        have := hodd' h
        omega
      rw [if_neg (by omega), heven, Nat.add_zero]
  · rw [Nat.mul_succ] at hlow' hodd'
    rw [if_neg (by omega)]
    by_cases hmore : den < 2 * rest
    · rw [if_pos hmore]
    · rw [if_neg hmore]
      have heven : (quotient + 1) % 2 = 0 := heven.resolve_right fun h => by
        have := hodd' h
        omega
      omega

/-! ## The exponent of a fraction -/

/-- The binary logarithm that the bit pattern of a fraction is found by. -/
theorem exists_log {num den : Nat} (hnum : 0 < num) (hden : 0 < den) :
    ∃ log : Int, (2 : ℚ) ^ log ≤ num / den ∧ (num : ℚ) / den < 2 ^ (log + 1) ∧
      magnitudeBits num den =
        let q := max (log - 52) (-1074)
        min ((q + 1074).toNat * 2 ^ 52 +
          roundQuotient (atScale num den q).1 (atScale num den q).2) infinityBits := by
  have hnumq : (0 : ℚ) < num := by exact_mod_cast hnum
  have hdenq : (0 : ℚ) < den := by exact_mod_cast hden
  have hnumLow : (2 : ℚ) ^ num.log2 ≤ num := by exact_mod_cast Nat.log2_self_le hnum.ne'
  have hnumHigh : (num : ℚ) < 2 ^ (num.log2 + 1) := by exact_mod_cast Nat.lt_log2_self
  have hdenLow : (2 : ℚ) ^ den.log2 ≤ den := by exact_mod_cast Nat.log2_self_le hden.ne'
  have hdenHigh : (den : ℚ) < 2 ^ (den.log2 + 1) := by exact_mod_cast Nat.lt_log2_self
  simp only [magnitudeBits, if_neg hnum.ne']
  -- the guess is the logarithm or one more, which the comparison finds out
  generalize hguess : (num.log2 : Int) - den.log2 = guess
  have hpow : (2 : ℚ) ^ guess = 2 ^ num.log2 / 2 ^ den.log2 := by
    rw [← hguess, zpow_sub₀ (by norm_num), zpow_natCast, zpow_natCast]
  have hlow : (2 : ℚ) ^ (guess - 1) ≤ num / den := by
    rw [zpow_sub_one₀ (by norm_num), hpow, le_div_iff₀ hdenq]
    calc (2 : ℚ) ^ num.log2 / 2 ^ den.log2 * 2⁻¹ * den
      _ ≤ 2 ^ num.log2 / 2 ^ den.log2 * 2⁻¹ * 2 ^ (den.log2 + 1) := by gcongr
      _ = 2 ^ num.log2 := by
        rw [pow_succ]
        field_simp
      _ ≤ num := hnumLow
  have hhigh : (num : ℚ) / den < 2 ^ (guess + 1) := by
    rw [zpow_add_one₀ (by norm_num), hpow, div_lt_iff₀ hdenq]
    calc (num : ℚ) < 2 ^ (num.log2 + 1) := hnumHigh
      _ = 2 ^ num.log2 / 2 ^ den.log2 * 2 * 2 ^ den.log2 := by
        rw [pow_succ]
        field_simp
      _ ≤ 2 ^ num.log2 / 2 ^ den.log2 * 2 * den := by gcongr
  have hscaled := atScale_eq hden num guess
  have hunit : (0 : ℚ) < (atScale num den guess).2 := by exact_mod_cast atScale_pos hden num guess
  have hcompare : (atScale num den guess).1 < (atScale num den guess).2 ↔
      (num : ℚ) / den < 2 ^ guess := by
    rw [← Nat.cast_lt (α := ℚ), ← div_lt_one hunit, hscaled, div_lt_one (two_zpow_pos guess)]
  by_cases hless : (atScale num den guess).1 < (atScale num den guess).2
  · refine ⟨guess - 1, hlow, ?_, ?_⟩
    · rw [sub_add_cancel]
      exact hcompare.1 hless
    · rw [if_pos hless]
  · refine ⟨guess, ?_, hhigh, ?_⟩
    · exact not_lt.1 fun h => hless (hcompare.2 h)
    · rw [if_neg hless]

/-! ## Rounding intervals -/

/-- What rounds to `m · 2 ^ q`. Both ends belong to it if `m` is even; just above a power of two
    the doubles lie closer below. -/
structure RoundsTo (m : Nat) (q : Int) (x : ℚ) : Prop where
  low : (m : ℚ) - (if m = 2 ^ 52 then 1 / 4 else 1 / 2) ≤ x / 2 ^ q
  high : x / 2 ^ q ≤ m + 1 / 2
  odd : m % 2 = 1 → (m : ℚ) - 1 / 2 < x / 2 ^ q ∧ x / 2 ^ q < m + 1 / 2

/-- A fraction has the bits of the double that it rounds to. -/
theorem magnitudeBits_eq {m : Nat} {q : Int} (h : IsRegular m q) {num den : Nat} (hnum : 0 < num)
    (hden : 0 < den) (hx : RoundsTo m q (num / den)) :
    magnitudeBits num den = regularBits m q := by
  obtain ⟨log, hlow, hhigh, hbits⟩ := exists_log hnum hden
  rw [hbits]
  have hq := two_zpow_pos q
  have hbelow : regularBits m q ≤ infinityBits := by
    have := h.lt
    have := h.least
    have := h.greatest
    simp only [regularBits, infinityBits]
    omega
  have hx' : (num : ℚ) / den = num / den / 2 ^ q * 2 ^ q := (div_mul_cancel₀ _ hq.ne').symm
  have hlt : (m : ℚ) + 1 ≤ 2 ^ 53 := by exact_mod_cast h.lt
  -- the fraction is less than the next power of two
  have hupper : (num : ℚ) / den < 2 ^ (q + 53) := by
    rw [zpow_add₀ (by norm_num), mul_comm, ← div_lt_iff₀ hq]
    calc (num : ℚ) / den / 2 ^ q ≤ m + 1 / 2 := hx.high
      _ < 2 ^ (53 : Int) := by
        norm_num at hlt ⊢
        linarith
  have hlogHigh : log < q + 53 :=
    (zpow_lt_zpow_iff_right₀ (by norm_num : (1 : ℚ) < 2)).1 (hlow.trans_lt hupper)
  have hround {p : Int} {n : Nat} (hlow : (n : ℚ) - 1 / 2 ≤ num / den / 2 ^ p)
      (hhigh : (num : ℚ) / den / 2 ^ p ≤ n + 1 / 2)
      (hodd : n % 2 = 1 → (n : ℚ) - 1 / 2 < num / den / 2 ^ p ∧ (num : ℚ) / den / 2 ^ p < n + 1 / 2) :
      roundQuotient (atScale num den p).1 (atScale num den p).2 = n := by
    rw [← atScale_eq hden] at hlow hhigh hodd
    exact roundQuotient_eq (atScale_pos hden num p) hlow hhigh hodd
  have hhalf : (m : ℚ) - 1 / 2 ≤ num / den / 2 ^ q := by
    refine le_trans ?_ hx.low
    split <;> linarith
  by_cases hsame : max (log - 52) (-1074) = q
  · simp only [hsame]
    rw [hround hhalf hx.high hx.odd]
    exact min_eq_left hbelow
  · -- the fraction lies below a power of two that it rounds to
    have hless : log < q + 52 := by
      have := h.least
      omega
    have hnormal : 2 ^ 52 ≤ m := by
      rcases h.normal with hq | hm
      · exfalso
        have := h.least
        omega
      · exact hm
    have hsmall : (num : ℚ) / den / 2 ^ q < 2 ^ 52 := by
      rw [div_lt_iff₀ hq]
      calc (num : ℚ) / den < 2 ^ (log + 1) := hhigh
        _ ≤ 2 ^ (q + 52) := two_zpow_mono (by omega)
        _ = 2 ^ 52 * 2 ^ q := by
          rw [zpow_add₀ (by norm_num), mul_comm]
          norm_num
    have hm : m = 2 ^ 52 := by
      refine le_antisymm ?_ hnormal
      by_contra hgt
      have hgt : (2 ^ 52 : ℚ) + 1 ≤ m := by exact_mod_cast not_le.1 hgt
      linarith
    subst hm
    have hquarter := hx.low
    rw [if_pos rfl] at hquarter
    have hdouble : (num : ℚ) / den / 2 ^ (q - 1) = 2 * (num / den / 2 ^ q) := by
      rw [zpow_sub_one₀ (by norm_num)]
      field_simp
    have hlogLow : q + 51 ≤ log := by
      have : (2 : ℚ) ^ (q + 51) < 2 ^ (log + 1) := by
        refine lt_of_le_of_lt ?_ hhigh
        rw [zpow_add₀ (by norm_num), mul_comm, ← le_div_iff₀ hq]
        norm_num at hquarter ⊢
        linarith
      have := (zpow_lt_zpow_iff_right₀ (by norm_num : (1 : ℚ) < 2)).1 this
      omega
    have hbelowExponent : max (log - 52) (-1074) = q - 1 := by
      have := h.least
      omega
    simp only [hbelowExponent]
    rw [hround (n := 2 ^ 53)]
    · have := h.least
      have heq : (q - 1 + 1074).toNat * 2 ^ 52 + 2 ^ 53 = regularBits (2 ^ 52) q := by
        simp only [regularBits]
        omega
      rw [heq]
      exact min_eq_left hbelow
    · rw [hdouble]
      norm_num at hquarter ⊢
      linarith
    · rw [hdouble]
      norm_num at hsmall ⊢
      linarith
    · intro hodd
      norm_num at hodd

/-! ## Rounding to the infinity -/

/-- A quotient is rounded to an even number or a greater one if it is at most half a unit below it. -/
theorem le_roundQuotient_iff {num den n : Nat} (hden : 0 < den) (heven : n % 2 = 0) :
    n ≤ roundQuotient num den ↔ (n : ℚ) - 1 / 2 ≤ num / den := by
  have hdenq : (0 : ℚ) < den := by exact_mod_cast hden
  have hcast : (n : ℚ) - 1 / 2 ≤ num / den ↔ 2 * (den * n) ≤ 2 * num + den := by
    rw [le_div_iff₀ hdenq, ← Nat.cast_le (α := ℚ)]
    push_cast
    constructor <;> intro h <;> linarith
  rw [hcast]
  have hsplit : num = den * (num / den) + num % den := (Nat.div_add_mod _ _).symm
  have hrest : num % den < den := Nat.mod_lt _ hden
  simp only [roundQuotient]
  generalize num / den = quotient at hsplit ⊢
  generalize num % den = rest at hsplit hrest ⊢
  -- the number is compared with the quotient and the two numbers behind it
  have hmono {a b : Nat} (h : a ≤ b) : den * a ≤ den * b := Nat.mul_le_mul_left _ h
  rcases Nat.lt_or_ge quotient n with hlt | hle
  · rcases Nat.lt_or_ge (quotient + 1) n with hlt' | hle'
    · have hfar := hmono hlt'
      rw [Nat.mul_succ, Nat.mul_succ] at hfar
      refine iff_of_false ?_ (by omega)
      split
      · omega
      · split <;> omega
    · obtain rfl : n = quotient + 1 := by omega
      rw [Nat.mul_succ]
      split
      · omega
      · split <;> omega
  · have hnear := hmono hle
    refine iff_of_true ?_ (by omega)
    split
    · omega
    · split <;> omega

/-- A fraction at a scale is rounded to an even number or a greater one if it is at most half a unit of
    the scale below it. -/
theorem le_roundQuotient_atScale_iff {num den n : Nat} (hden : 0 < den) (heven : n % 2 = 0) (p : Int) :
    n ≤ roundQuotient (atScale num den p).1 (atScale num den p).2 ↔
      ((n : ℚ) - 1 / 2) * 2 ^ p ≤ num / den := by
  rw [le_roundQuotient_iff (atScale_pos hden num p) heven, atScale_eq hden, le_div_iff₀ (two_zpow_pos p)]

theorem two_zpow_add_natCast (k : Int) (n : Nat) : (2 : ℚ) ^ (k + n) = 2 ^ n * 2 ^ k := by
  rw [add_comm, zpow_add₀ two_ne_zero, zpow_natCast]

/-- The middle between the greatest double and the next power of two. -/
theorem middle_eq : (2 : ℚ) ^ 1024 - 2 ^ 970 = (2 ^ 53 - 1 / 2) * 2 ^ (971 : Int) := by
  have hpower : (2 : ℚ) ^ 1024 = 2 ^ 54 * 2 ^ 970 := by rw [← pow_add]
  have hunit : (2 : ℚ) ^ (971 : Int) = 2 * 2 ^ 970 := by
    rw [show (971 : Int) = 1 + (970 : Nat) by rfl, zpow_add₀ two_ne_zero, zpow_natCast, zpow_one]
  rw [hpower, hunit]
  generalize (2 : ℚ) ^ 970 = unit
  ring

section

variable {num den : Nat} (hden : 0 < den) {log : Int}
include hden

/-- Below a power of two a fraction is rounded at most to the significand of that power. -/
theorem roundQuotient_lt (hhigh : (num : ℚ) / den < 2 ^ (log + 1)) {q : Int} (hq : log - 52 ≤ q) :
    roundQuotient (atScale num den q).1 (atScale num den q).2 < 2 ^ 53 + 2 := by
  rw [← not_le, le_roundQuotient_atScale_iff hden (by norm_num), not_le]
  calc (num : ℚ) / den < 2 ^ (log + 1) := hhigh
    _ ≤ 2 ^ (q + (53 : Nat)) := two_zpow_mono (by omega)
    _ = 2 ^ 53 * 2 ^ q := two_zpow_add_natCast _ 53
    _ ≤ _ := mul_le_mul_of_nonneg_right (by norm_num) (two_zpow_pos _).le

/-- From a power of two on a fraction is rounded at least to its significand. -/
theorem le_roundQuotient (hlow : (2 : ℚ) ^ log ≤ num / den) :
    2 ^ 52 ≤ roundQuotient (atScale num den (log - 52)).1 (atScale num den (log - 52)).2 := by
  rw [le_roundQuotient_atScale_iff hden (by norm_num)]
  refine le_trans ?_ hlow
  calc ((2 ^ 52 : Nat) - 1 / 2 : ℚ) * 2 ^ (log - 52) ≤ 2 ^ 52 * 2 ^ (log - 52) :=
        mul_le_mul_of_nonneg_right (by norm_num) (two_zpow_pos _).le
    _ = 2 ^ (log - 52 + (52 : Nat)) := (two_zpow_add_natCast _ 52).symm
    _ ≤ 2 ^ log := two_zpow_mono (by omega)

/-- A fraction is rounded to the infinity if it is not below the middle between the greatest double
    and the next power of two. -/
theorem magnitudeBits_lt_infinityBits_iff :
    magnitudeBits num den < infinityBits ↔ (num : ℚ) / den < 2 ^ 1024 - 2 ^ 970 := by
  rw [middle_eq]
  have hunit := two_zpow_pos 971
  rcases Nat.eq_zero_or_pos num with rfl | hnum
  · refine iff_of_true (by simp [magnitudeBits, infinityBits]) ?_
    rw [Nat.cast_zero, zero_div]
    exact mul_pos (by norm_num) hunit
  obtain ⟨log, hlow, hhigh, hbits⟩ := exists_log hnum hden
  rw [hbits]
  simp only [infinityBits, min_lt_iff, lt_irrefl, or_false]
  -- only fractions with the last exponent are in question
  rcases lt_trichotomy log 1023 with hless | rfl | hmore
  · -- below the last power of two
    have hround := roundQuotient_lt hden hhigh (q := max (log - 52) (-1074)) (le_max_left _ _)
    refine iff_of_true (by omega) ?_
    calc (num : ℚ) / den < 2 ^ (log + 1) := hhigh
      _ ≤ 2 ^ ((971 : Int) + (52 : Nat)) := two_zpow_mono (by omega)
      _ = 2 ^ 52 * 2 ^ (971 : Int) := two_zpow_add_natCast 971 52
      _ ≤ (2 ^ 53 - 1 / 2) * 2 ^ (971 : Int) := mul_le_mul_of_nonneg_right (by norm_num) hunit.le
  · -- the fraction is at most one rounding away from the next power of two
    have hround : 2 ^ 53 ≤ roundQuotient (atScale num den 971).1 (atScale num den 971).2 ↔ _ :=
      le_roundQuotient_atScale_iff hden (by norm_num) 971
    rw [Nat.cast_pow, Nat.cast_ofNat] at hround
    have hmax : max ((1023 : Int) - 52) (-1074) = 971 := by omega
    rw [← not_le (b := (num : ℚ) / den), ← hround, hmax]
    omega
  · have hround := le_roundQuotient hden hlow
    have hmax : max (log - 52) (-1074) = log - 52 := by omega
    refine iff_of_false (by rw [hmax]; omega) (not_lt.2 (le_trans ?_ hlow))
    calc (2 ^ 53 - 1 / 2 : ℚ) * 2 ^ (971 : Int) ≤ 2 ^ 53 * 2 ^ (971 : Int) :=
          mul_le_mul_of_nonneg_right (by norm_num) hunit.le
      _ = 2 ^ ((971 : Int) + (53 : Nat)) := (two_zpow_add_natCast 971 53).symm
      _ ≤ 2 ^ log := two_zpow_mono (by omega)

end

end Pseudocode.Double
