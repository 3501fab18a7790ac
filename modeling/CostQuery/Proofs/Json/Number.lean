import CostQuery.Json.Basic
import Mathlib

/-! Numbers that exchange text can hold are finite as floats. -/

namespace CostQuery
open Float.Model Float.Model.UnpackedFloat

/-- A number of exchange text: a whole number of 64 bits, or a finite float. -/
def Number.IsValid : Number → Prop
  | .int n => isWord n = true
  | .float x => x.isFinite = true

/-! Rounding keeps exponents low. -/

theorem mantissa_shift_le (em : ExtendedMantissa) (k : Nat) :
    (em >>> k).mantissa ≤ em.mantissa := by
  induction k with
  | zero => exact le_rfl
  | succ k ih =>
    have hstep : (em >>> (k + 1)).mantissa = (em >>> k).mantissa / 2 := rfl
    omega

theorem roundedMantissa_le (em : ExtendedMantissa) : em.roundedMantissa ≤ em.mantissa + 1 := by
  unfold ExtendedMantissa.roundedMantissa Accuracy.roundToNearestEven
  split <;> omega

theorem shiftToTargetExponent_le (m : Nat) (e : Int) :
    (shiftToTargetExponent .binary64 m e .exact).1.mantissa ≤ m ∧
      (shiftToTargetExponent .binary64 m e .exact).2 ≤ max e (max (m.log2 + e) (-1074)) := by
  refine ⟨mantissa_shift_le _ _, ?_⟩
  simp only [shiftToTargetExponent, shiftToExponent, Format.targetExponent, totalExponent,
    Format.mantissaBits, Format.minExponent]
  norm_num
  omega

/-- Neither infinite nor far from it. -/
inductive IsLow : UnpackedFloat → Prop
  | zero (sign : Sign) : IsLow (.zero sign)
  | finite (sign : Sign) {m : Nat} {e : Int} (hm : 0 < m) (he : e ≤ 900) :
      IsLow (.finite sign m e hm)

theorem isLow_round (sign : Sign) {m : Nat} {e : Int} (hm : m < 2 ^ 117) (he : e ≤ 0) :
    IsLow (roundWithAccuracy .binary64 sign m e .exact) := by
  have hlog : ∀ k ≤ 2 ^ 117, k.log2 ≤ 117 := by
    intro k hk
    by_cases hzero : k = 0
    · rw [hzero]
      decide
    · have hlt : k < 2 ^ 118 := by omega
      have hlog := (Nat.log2_lt hzero).mpr hlt
      omega
  obtain ⟨hfirst, hfirst'⟩ := shiftToTargetExponent_le m e
  have hrounded := roundedMantissa_le (shiftToTargetExponent .binary64 m e .exact).1
  obtain ⟨-, hsecond'⟩ := shiftToTargetExponent_le
    (shiftToTargetExponent .binary64 m e .exact).1.roundedMantissa
    (shiftToTargetExponent .binary64 m e .exact).2
  have hlogm := hlog m (by omega)
  have hlogr := hlog (shiftToTargetExponent .binary64 m e .exact).1.roundedMantissa (by omega)
  simp only [roundWithAccuracy]
  split
  · exact .zero sign
  · exact .finite sign _ (by omega)

theorem isFinite_unpack {b : BitVec Format.binary64.numBits}
    (h : unpackExponent b ≠ -BitVec.ofNat Format.binary64.exponentBits 1) :
    (UnpackedFloat.unpack .binary64 b).isFinite = true := by
  simp only [UnpackedFloat.unpack]
  split
  · next hones => exact absurd hones h
  · split
    · split <;> rfl
    · rfl

theorem isFinite_pack {x : UnpackedFloat} (h : IsLow x) :
    (UnpackedFloat.unpack .binary64 (UnpackedFloat.pack .binary64 x)).isFinite = true := by
  refine isFinite_unpack ?_
  cases h with
  | zero sign =>
    rw [UnpackedFloat.pack, packedZero, unpackExponent_packComponents]
    decide
  | @finite sign m e hm he =>
    have hbias : Format.exponentBias .binary64 = 1023 := rfl
    have hlow : (e + Format.exponentBias .binary64 + (52 : ℕ)).toNat + 1 < 2 ^ 11 := by
      rw [hbias]
      omega
    simp only [UnpackedFloat.pack]
    rw [if_neg (Nat.not_le.mpr hlow)]
    split_ifs
    · rw [unpackExponent_packComponents]
      intro hones
      have hvalue := congrArg BitVec.toNat hones
      rw [BitVec.toNat_ofNat, Nat.mod_eq_of_lt (by omega)] at hvalue
      have hmost : (e + Format.exponentBias .binary64 + (52 : ℕ)).toNat = 2 ^ 11 - 1 := hvalue
      omega
    · rw [unpackExponent_packComponents]
      decide

/-- The whole numbers that become floats are finite there: those that fit 64 bits without a sign
only. -/
theorem Number.isFinite_ofInt {n : Int} (h : isWord n = true) (hlarge : isSignedWord n = false) :
    (Float.ofInt n).isFinite = true := by
  simp only [isWord, isSignedWord, Nat.pow_eq, decide_eq_true_eq, decide_eq_false_iff_not]
    at h hlarge
  obtain ⟨m, rfl⟩ : ∃ m : ℕ, n = m := ⟨n.toNat, by omega⟩
  have hinexact : ¬ (m < 2 ^ 53 ∧ 0 ≤ 22) := by omega
  have hmodel : (Float.ofInt m).toModel = Float.Model.ofScientific m 0 := by
    have hread : Float.ofInt m = Float.ofScientific m false 0 := rfl
    rw [hread, Float.ofScientific, dif_neg hinexact]
    rfl
  have hsmall : ¬ ((0 : ℤ) > 2 ^ Format.exponentBits .binary64) := by norm_num
  have htiny : ¬ (0 : ℤ) < -(2 ^ Format.exponentBits .binary64 + m.log2) := by norm_num
  have hshifted : m <<< Format.mantissaBits .binary64 * 10 ^ Int.toNat 0 < 2 ^ 117 := by
    have hbits : Format.mantissaBits .binary64 = 53 := rfl
    rw [hbits, Nat.shiftLeft_eq, Int.toNat_zero, pow_zero, mul_one]
    omega
  have hexponent : -(Format.mantissaBits .binary64 : ℤ) + 0 ≤ 0 := by decide
  have hlow : IsLow (UnpackedFloat.ofScientific .binary64 m 0) := by
    rw [UnpackedFloat.ofScientific, dif_neg (by omega), if_neg hsmall, if_neg htiny,
      if_pos le_rfl, UnpackedFloat.mul]
    exact isLow_round _ hshifted hexponent
  rw [Float.isFinite, hmodel]
  exact isFinite_pack hlow

end CostQuery
