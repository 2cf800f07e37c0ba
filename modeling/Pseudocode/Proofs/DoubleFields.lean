import Mathlib
import Pseudocode.Script.Value

/-!
# The fields of doubles

What is computed with doubles is computed with their fields: a double is unpacked, and the result is
packed again. A double and its opposite differ in one bit, so to subtract a double is to add its
opposite, and a positive double lies between zero and what is greater.

* `Double.decode_ofBits`       the bit pattern of a number is that of the double made of it
* `Double.isNaN_iff`           what is not a number by its fields
* `Double.add_neg`             to subtract is to add the opposite
* `Double.beq_comm`            equality is symmetric
* `Double.isPositive_ofBits`   which bit patterns are positive numbers
-/

namespace Pseudocode.Double

open Float.Model Float.Model.UnpackedFloat

/-! ## Fields -/

theorem toNat_unpackExponent (b : BitVec Format.binary64.numBits) :
    (unpackExponent b).toNat = b.toNat / 2 ^ 52 % 2 ^ 11 := by
  rw [unpackExponent_def, BitVec.extractLsb'_toNat, Nat.shiftRight_eq_div_pow]

theorem toNat_unpackMantissa (b : BitVec Format.binary64.numBits) :
    (unpackMantissa b).toNat = b.toNat % 2 ^ 52 := by
  rw [unpackMantissa_def, BitVec.extractLsb'_toNat]
  rfl

/-- The exponent of what is not a finite number. -/
theorem unpackExponent_eq_iff (b : BitVec Format.binary64.numBits) :
    unpackExponent b = -1#11 ↔ b.toNat / 2 ^ 52 % 2 ^ 11 = 2047 := by
  rw [← toNat_unpackExponent, ← BitVec.toNat_inj]
  rfl

theorem unpackMantissa_eq_iff (b : BitVec Format.binary64.numBits) :
    unpackMantissa b = 0#52 ↔ b.toNat % 2 ^ 52 = 0 := by
  rw [← toNat_unpackMantissa, ← BitVec.toNat_inj]
  rfl

theorem ofBits_eq_nan_iff (bits : Nat) :
    ofBits bits = .nan ↔ bits / 2 ^ 52 % 2 ^ 11 = 2047 ∧ bits % 2 ^ 52 ≠ 0 := by
  simp only [ofBits]
  split
  · split <;> simp [*]
  · next hfield =>
    refine iff_of_false ?_ fun h => hfield h.1
    split <;> exact Double.noConfusion

theorem unpacked_isNaN_iff (b : BitVec Format.binary64.numBits) :
    (UnpackedFloat.unpack .binary64 b).isNaN = true ↔ unpackExponent b = -1#11 ∧ unpackMantissa b ≠ 0#52 := by
  simp only [UnpackedFloat.unpack]
  split
  · split <;> simp [UnpackedFloat.isNaN, *]
  · next hexponent =>
    refine iff_of_false ?_ fun h => hexponent h.1
    split
    · split <;> exact Bool.false_ne_true
    · exact Bool.false_ne_true

/-- A double is not a number if its fields say so. -/
theorem isNaN_iff (x : Float) : x.isNaN = true ↔ decode x = .nan := by
  refine (unpacked_isNaN_iff x.toBits.toBitVec).trans ?_
  rw [unpackExponent_eq_iff, ne_eq, unpackMantissa_eq_iff]
  exact (ofBits_eq_nan_iff _).symm

/-- Only the bit patterns of what is not a number are changed when they are unpacked and packed again. -/
theorem pack_unpack_of_ne_nan {b : BitVec Format.binary64.numBits} (h : ofBits b.toNat ≠ .nan) :
    UnpackedFloat.pack .binary64 (UnpackedFloat.unpack .binary64 b) = b := by
  refine pack_unpack_of_valid ⟨fun hexponent hmantissa => absurd ?_ h⟩
  rw [ofBits_eq_nan_iff, ← unpackExponent_eq_iff, ne_eq, ← unpackMantissa_eq_iff]
  exact ⟨hexponent, hmantissa⟩

theorem toNat_toBitVec_ofNat {bits : Nat} (h : bits < 2 ^ 64) : (UInt64.ofNat bits).toBitVec.toNat = bits :=
  Nat.mod_eq_of_lt h

/-- The bit pattern of a number is that of the double made of it. -/
theorem decode_ofBits {bits : Nat} (h : bits < 2 ^ 64) (hnumber : ofBits bits ≠ .nan) :
    decode (Float.ofBits (UInt64.ofNat bits)) = ofBits bits := by
  have htoNat := toNat_toBitVec_ofNat h
  show ofBits (UnpackedFloat.pack .binary64 (UnpackedFloat.unpack .binary64
    (UInt64.ofNat bits).toBitVec)).toNat = _
  rw [pack_unpack_of_ne_nan (by rwa [htoNat]), htoNat]

/-- The bits with the other sign. -/
def flipped {spec : Float.Model.Format} (b : BitVec spec.numBits) : BitVec spec.numBits :=
  packComponents spec (-Sign.ofBitVec (unpackSign b)) (unpackExponent b) (unpackMantissa b)

theorem unpack_flipped {spec : Float.Model.Format} (b : BitVec spec.numBits) :
    UnpackedFloat.unpack spec (flipped b) = (UnpackedFloat.unpack spec b).neg := by
  unfold UnpackedFloat.unpack
  simp only [flipped, unpackMantissa_packComponents, unpackExponent_packComponents,
    unpackSign_packComponents, Sign.ofBitVec_toBitVec]
  split
  · split <;> rfl
  · split
    · split <;> rfl
    · rfl

theorem valid_flipped {spec : Float.Model.Format} {b : BitVec spec.numBits}
    (h : UnpackedFloat.unpack spec b ≠ .notANumber) : spec.Valid (flipped b) := by
  refine ⟨fun hexponent hmantissa => absurd ?_ h⟩
  rw [flipped, unpackExponent_packComponents] at hexponent
  rw [flipped, unpackMantissa_packComponents] at hmantissa
  simp only [UnpackedFloat.unpack, if_pos hexponent, if_neg hmantissa]

/-- The opposite of a double is packed without a loss. -/
theorem unpack_pack_neg {b : BitVec Format.binary64.numBits} :
    UnpackedFloat.unpack .binary64 (UnpackedFloat.pack .binary64 (UnpackedFloat.unpack .binary64 b).neg) =
      (UnpackedFloat.unpack .binary64 b).neg := by
  by_cases h : UnpackedFloat.unpack .binary64 b = .notANumber
  · rw [h]
    exact unpack_packedNaN
  · rw [← unpack_flipped, pack_unpack_of_valid (valid_flipped h)]

/-! ## Sums and differences -/

theorem Sign.apply_neg (sign : Sign) (n : Int) : (-sign).apply n = -sign.apply n := by
  cases sign
  · exact (Int.neg_neg n).symm
  · rfl

theorem unpacked_add_neg (spec : Float.Model.Format) (a b : UnpackedFloat) :
    UnpackedFloat.add spec a b.neg = UnpackedFloat.sub spec a b := by
  cases a <;> cases b <;>
    simp [UnpackedFloat.add, UnpackedFloat.sub, UnpackedFloat.neg, Sign.apply_neg, Int.sub_eq_add_neg]

theorem unpack_neg (x : Float) : (-x).toModel.unpack = x.toModel.unpack.neg := unpack_pack_neg

/-- To subtract a double is to add its opposite. -/
theorem add_neg (x y : Float) : x + -y = x - y := by
  show Float.ofModel (Float.Model.pack (UnpackedFloat.add .binary64 x.toModel.unpack
    (-y).toModel.unpack)) = _
  rw [unpack_neg, unpacked_add_neg]
  rfl

/-! ## Equality -/

theorem Sign.swap_compare (s t : Sign) : (compare s t).swap = compare t s := by
  cases s <;> cases t <;> rfl

/-- The fields of finite numbers are compared one after the other. -/
theorem swap_compare_fields (m m' : Nat) (e e' : Int) :
    ((compare e e').then (compare m m')).swap = (compare e' e).then (compare m' m) := by
  rw [Ordering.swap_then, Int.compare_swap, Nat.compare_swap]

theorem unpacked_swap_compare (a b : UnpackedFloat) :
    (a.compare b).map Ordering.swap = b.compare a := by
  -- kind by kind; only two finite numbers are compared by their fields
  cases a with
  | notANumber =>
    cases b with
    | infinity s | finite s => cases s <;> rfl
    | _ => rfl
  | infinity s =>
    cases b with
    | infinity s' => simp [UnpackedFloat.compare, Sign.swap_compare]
    | finite s' => cases s <;> cases s' <;> rfl
    | _ => cases s <;> rfl
  | zero s =>
    cases b with
    | infinity s' | finite s' => cases s' <;> rfl
    | _ => rfl
  | finite s m e hm =>
    cases b with
    | finite s' m' e' hm' =>
      cases s <;> cases s' <;> simp [UnpackedFloat.compare, swap_compare_fields]
    | infinity s' => cases s <;> cases s' <;> rfl
    | _ => cases s <;> rfl

/-- Equality of doubles is symmetric. -/
theorem beq_comm (x y : Float) : (x == y) = (y == x) := by
  show (x.toModel.unpack.compare y.toModel.unpack == some .eq) =
    (y.toModel.unpack.compare x.toModel.unpack == some .eq)
  rw [← unpacked_swap_compare x.toModel.unpack]
  cases x.toModel.unpack.compare y.toModel.unpack with
  | none => rfl
  | some order => cases order <;> rfl

/-! ## Positive numbers -/

theorem lt_iff (x y : Float) : x < y ↔ x.toModel.unpack.compare y.toModel.unpack = some .lt := by
  show decide (x.toModel.unpack.lt y.toModel.unpack = true) = true ↔ _
  rw [decide_eq_true_iff]
  exact beq_iff_eq

/-- A number that is greater than zero, by its fields. -/
def IsPositive (x : Float) : Prop := ∃ m e h, x.toModel.unpack = .finite .positive m e h

/-- The bit patterns between those of zero and of infinity are those of the positive numbers. -/
theorem isPositive_ofBits {bits : Nat} (hpos : 0 < bits) (h : bits < infinityBits) :
    IsPositive (Float.ofBits (UInt64.ofNat bits)) := by
  simp only [infinityBits] at h
  have htoNat := toNat_toBitVec_ofNat (Nat.lt_trans h (by decide))
  show ∃ m e h, UnpackedFloat.unpack .binary64 (UnpackedFloat.pack .binary64
    (UnpackedFloat.unpack .binary64 (UInt64.ofNat bits).toBitVec)) = .finite .positive m e h
  generalize (UInt64.ofNat bits).toBitVec = b at htoNat ⊢
  -- below the sign the fields are quotient and remainder by `2 ^ 52`
  have hexponent : (@unpackExponent .binary64 b).toNat = bits / 2 ^ 52 := by
    rw [toNat_unpackExponent, htoNat]
    omega
  have hmantissa : (@unpackMantissa .binary64 b).toNat = bits % 2 ^ 52 := by
    rw [toNat_unpackMantissa, htoNat]
  have hsign : @unpackSign .binary64 b = 0#1 := by
    apply BitVec.eq_of_toNat_eq
    rw [unpackSign_def, BitVec.extractLsb'_toNat, htoNat, Nat.shiftRight_eq_div_pow]
    simp
    omega
  have hfinite : @unpackExponent .binary64 b ≠ -1#11 := by
    rw [ne_eq, unpackExponent_eq_iff, htoNat]
    omega
  rw [pack_unpack_of_valid ⟨fun heq => absurd heq hfinite⟩]
  unfold UnpackedFloat.unpack
  simp only [hsign]
  rw [if_neg hfinite]
  -- subnormal if the exponent is zero, else normal
  split
  · next hzero =>
    split
    · next hmzero =>
      have hhigh : bits / 2 ^ 52 = 0 := by rw [← hexponent, hzero]; rfl
      have hlow : bits % 2 ^ 52 = 0 := by rw [← hmantissa, hmzero]; rfl
      omega
    · next hmantissa =>
      exact ⟨_, _, Nat.pos_of_ne_zero fun h => hmantissa (BitVec.eq_of_toNat_eq h), rfl⟩
  · have hleading : 0 < (1#1 ++ @unpackMantissa .binary64 b).toNat := by
      rw [BitVec.toNat_append]
      exact Nat.lt_of_lt_of_le (by decide) Nat.left_le_or
    exact ⟨_, _, hleading, rfl⟩

/-- A positive number is greater than zero. -/
theorem IsPositive.compareNumbers? {x zero : Float} (h : IsPositive x)
    (hzero : zero.toModel.unpack = .zero .positive) :
    Script.compareNumbers? x zero = some .gt := by
  obtain ⟨m, e, hm, hx⟩ := h
  have hless : ¬ x < zero := by simp [lt_iff, hx, hzero, UnpackedFloat.compare]
  have hgreater : zero < x := by simp [lt_iff, hx, hzero, UnpackedFloat.compare]
  rw [Script.compareNumbers?, if_neg hless, if_pos hgreater]

/-- The opposite of a positive number is less than zero. -/
theorem IsPositive.compareNumbers?_neg {x zero : Float} (h : IsPositive x)
    (hzero : zero.toModel.unpack = .zero .positive) :
    Script.compareNumbers? (-x) zero = some .lt := by
  obtain ⟨m, e, hm, hx⟩ := h
  have hneg : (-x).toModel.unpack = .finite .negative m e hm := by
    rw [unpack_neg, hx]
    rfl
  have hless : -x < zero := by simp [lt_iff, hneg, hzero, UnpackedFloat.compare]
  rw [Script.compareNumbers?, if_pos hless]

end Pseudocode.Double
