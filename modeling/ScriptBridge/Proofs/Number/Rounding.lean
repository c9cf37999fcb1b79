import ScriptBridge.Number.Cast
import Mathlib

/-!
# Integers as Doubles

An integer that has more bits than the mantissa of a double is rounded. Rounding drops bits and adds
one at most, so its result has an exponent that is not far from the one it started with: an integer of
64 bits stays far below the doubles that are too large to be told from infinity.

Main statement: `isFinite_doubleOfInt`.
-/

namespace ScriptBridge.Number

open Float.Model Float.Model.UnpackedFloat

/-! ## Shifting and Rounding -/

theorem mantissa_shiftRight_le (em : ExtendedMantissa) (k : Nat) :
    (em >>> k).mantissa ≤ em.mantissa := by
  induction k with
  | zero => exact Nat.le_refl _
  | succ k ih => exact Nat.le_trans (Nat.div_le_self _ 2) ih

theorem mantissa_ofMantissaAndAccuracy (m : Nat) (accuracy : Accuracy) :
    (ExtendedMantissa.ofMantissaAndAccuracy m accuracy).mantissa = m := by
  cases accuracy with
  | exact => rfl
  | inexact order => cases order <;> rfl

theorem roundedMantissa_le (em : ExtendedMantissa) : em.roundedMantissa ≤ em.mantissa + 1 := by
  rw [ExtendedMantissa.roundedMantissa]
  cases em.accuracy with
  | exact => exact Nat.le_succ _
  | inexact order =>
    cases order with
    | lt => exact Nat.le_succ _
    | eq => exact Nat.add_le_add_left (Nat.le_of_lt_succ (Nat.mod_lt _ Nat.two_pos)) _
    | gt => exact Nat.le_refl _

variable {m k : Nat} {e : Int}

/-- A mantissa is shifted to the right until it fits, which its bits bound. -/
theorem shiftToTargetExponent_bounds (hm : m < 2 ^ k) (hk : 0 < k) (accuracy : Accuracy) :
    (shiftToTargetExponent .binary64 m e accuracy).1.mantissa ≤ m ∧
    (shiftToTargetExponent .binary64 m e accuracy).2 ≤ max (e + k) (-1074) := by
  refine ⟨?_, ?_⟩
  · calc (shiftToTargetExponent .binary64 m e accuracy).1.mantissa
        ≤ (ExtendedMantissa.ofMantissaAndAccuracy m accuracy).mantissa := mantissa_shiftRight_le _ _
      _ = m := mantissa_ofMantissaAndAccuracy m accuracy
  · have hlog : m.log2 < k := by
      rcases Nat.eq_zero_or_pos m with rfl | hpos
      · exact hk
      · exact (Nat.log2_lt (Nat.ne_of_gt hpos)).2 hm
    have hexponent : (shiftToTargetExponent .binary64 m e accuracy).2 =
        e + ((max (((m.log2 : Int) + 1 + e) - 53) (-1074) - e).toNat : Int) := rfl
    rw [hexponent]
    omega

/-- A number is zero, or finite with an exponent up to a bound. -/
inductive IsBelow (bound : Int) : UnpackedFloat → Prop
  | zero {sign : Sign} : IsBelow bound (.zero sign)
  | finite {sign : Sign} {m : Nat} {e : Int} {hm : 0 < m} :
      e ≤ bound → IsBelow bound (.finite sign m e hm)

theorem IsBelow.mono {bound bound' : Int} {x : UnpackedFloat} (h : IsBelow bound x)
    (hle : bound ≤ bound') : IsBelow bound' x := by
  cases h with
  | zero => exact .zero
  | finite he => exact .finite (Int.le_trans he hle)

/-- Rounding makes the exponent larger by what its bits bound. -/
theorem isBelow_roundWithAccuracy (hm : m < 2 ^ k) (hk : 0 < k) (sign : Sign) (accuracy : Accuracy) :
    IsBelow (max (e + 2 * k + 1) k) (roundWithAccuracy .binary64 sign m e accuracy) := by
  obtain ⟨hmantissa, hexponent⟩ := shiftToTargetExponent_bounds (e := e) hm hk accuracy
  obtain ⟨em, e₁, hshift⟩ : ∃ em e₁, shiftToTargetExponent .binary64 m e accuracy = (em, e₁) :=
    ⟨_, _, rfl⟩
  rw [hshift] at hmantissa hexponent
  dsimp only at hmantissa hexponent
  have hrounded : em.roundedMantissa < 2 ^ (k + 1) := by
    have hle := roundedMantissa_le em
    have hpow : 2 ^ (k + 1) = 2 ^ k + 2 ^ k := by rw [Nat.pow_succ, Nat.mul_two]
    omega
  obtain ⟨-, hlast⟩ := shiftToTargetExponent_bounds (e := e₁) hrounded (Nat.succ_pos k) .exact
  -- what has been rounded up may need one more bit, so it is shifted again
  rw [roundWithAccuracy, hshift]
  dsimp only
  split
  · exact .zero
  · exact .finite (by omega)

/-! ## Packing -/

/-- What is far enough below the largest doubles does not become infinite. -/
theorem isFinite_unpack_pack {x : UnpackedFloat} (h : IsBelow 971 x) :
    (Float.Model.unpack (Float.Model.pack x)).isFinite = true := by
  cases h with
  | @zero sign => cases sign <;> rfl
  | @finite sign m e hm he =>
    have hbias : Format.binary64.exponentBias = 1023 := rfl
    have hsmall : (e + 1023 + 52).toNat < 2047 := by omega
    -- the exponent with all bits set is kept for infinity
    have hexponent : unpackExponent (UnpackedFloat.pack .binary64 (.finite sign m e hm)) ≠ -1#11 := by
      rw [UnpackedFloat.pack]
      dsimp only
      rw [hbias]
      split
      · next hlarge =>
        have hlarge' : 2048 ≤ (e + 1023 + 52).toNat + 1 := hlarge
        omega
      · split
        · rw [unpackExponent_packComponents]
          intro hbits
          have hnat : (e + 1023 + 52).toNat % 2048 = 2047 := congrArg BitVec.toNat hbits
          omega
        · rw [unpackExponent_packComponents]
          decide
    have hunpack : Float.Model.unpack (Float.Model.pack (.finite sign m e hm)) =
      UnpackedFloat.unpack .binary64 (UnpackedFloat.pack .binary64 (.finite sign m e hm)) := rfl
    rw [hunpack, UnpackedFloat.unpack]
    dsimp only
    rw [if_neg hexponent]
    split
    · split <;> rfl
    · rfl

/-! ## Integers -/

/-- **An unsigned integer of 64 bits is a finite double**, where it has more bits than the mantissa of
a double. -/
theorem isFinite_doubleOfInt {n : Int} (hlow : 2 ^ 53 ≤ n) (hhigh : n < 2 ^ 64) :
    (doubleOfInt n).isFinite = true := by
  obtain ⟨m, rfl⟩ : ∃ m : Nat, n = m := ⟨n.toNat, by omega⟩
  have hlow' : 2 ^ 53 ≤ m := by omega
  have hhigh' : m < 2 ^ 64 := by omega
  have hof : Float.ofNat m = .ofModel (Float.Model.ofScientific m 0) := by
    change Float.ofScientific m false 0 = _
    rw [Float.ofScientific, dif_neg fun h => absurd h.1 (Nat.not_lt.2 hlow')]
    rfl
  have hpower : -(2 ^ Format.binary64.exponentBits + (m.log2 : Int)) ≤ 0 := by
    rw [show Format.binary64.exponentBits = 11 from rfl]
    omega
  -- without a fraction the number is shifted to the left and then rounded
  have hround : UnpackedFloat.ofScientific .binary64 m 0 =
      roundWithAccuracy .binary64 .positive (m <<< 53 * 1) (-53) .exact := by
    rw [UnpackedFloat.ofScientific, dif_neg (by omega), if_neg (by decide),
      if_neg (Int.not_lt.2 hpower), if_pos (Int.le_refl 0), UnpackedFloat.mul]
    rfl
  have hshifted : m <<< 53 < 2 ^ 117 := by
    rw [Nat.shiftLeft_eq]
    calc m * 2 ^ 53 < 2 ^ 64 * 2 ^ 53 := Nat.mul_lt_mul_of_pos_right hhigh' (by decide)
      _ = 2 ^ 117 := by decide
  have hbelow := isBelow_roundWithAccuracy (e := -53) hshifted (by decide) .positive .exact
  have hpacked : IsBelow 971 (UnpackedFloat.ofScientific .binary64 m 0) := by
    rw [hround, Nat.mul_one]
    exact hbelow.mono (by decide)
  rw [doubleOfInt, if_neg (by omega), Int.natAbs_natCast, hof]
  exact isFinite_unpack_pack hpacked

end ScriptBridge.Number
