import DigitiserSums.Binary.Double
import Mathlib

/-!
# Whole numbers of the 32-bit format

A magnitude with zeros beyond its leading twenty-four digits is kept when it is rounded, and its bit
pattern gives it back. Every whole number below `2 ^ 24` is one, so such a number is exactly the
value of the 32-bit number made from it.
-/

namespace DigitiserSums

namespace Binary

/-- The leading digits of a magnitude: twenty-four of them as soon as any digit lies beyond. -/
theorem leading_lt (n : Nat) : n / 2 ^ excess 24 n < 2 ^ 24 := by
  rcases Nat.eq_zero_or_pos n with rfl | hn
  · decide
  · have hlog : n < 2 ^ (n.log2 + 1) := Nat.lt_log2_self
    have hle : 2 ^ (n.log2 + 1) ≤ 2 ^ (excess 24 n + 24) := by
      refine Nat.pow_le_pow_right Nat.two_pos ?_
      unfold excess
      omega
    rw [Nat.pow_add 2 (excess 24 n) 24] at hle
    exact Nat.div_lt_of_lt_mul (Nat.lt_of_lt_of_le hlog hle)

theorem le_leading {n : Nat} (h : 0 < excess 24 n) : 2 ^ 23 ≤ n / 2 ^ excess 24 n := by
  have hn : n ≠ 0 := by
    rintro rfl
    exact absurd h (by decide)
  have hlog : 2 ^ n.log2 ≤ n := Nat.log2_self_le hn
  have hsplit : n.log2 = 23 + excess 24 n := by
    unfold excess at h ⊢
    omega
  rw [hsplit, Nat.pow_add] at hlog
  exact (Nat.le_div_iff_mul_le (Nat.two_pow_pos _)).2 hlog

/-- A magnitude with nothing but zeros beyond the precision is kept. -/
theorem roundTo_of_dvd {precision n : Nat} (h : 2 ^ excess precision n ∣ n) :
    roundTo precision n 1 = n := by
  have hround := roundHalfEven_mul_right (n / 2 ^ excess precision n)
    (Nat.two_pow_pos (excess precision n))
  rw [Nat.div_mul_cancel h] at hround
  simp only [roundTo, Nat.div_one, Nat.one_shiftLeft, hround]
  rw [Nat.shiftLeft_eq, Nat.div_mul_cancel h]

/-- A whole number of twenty-four digits has zeros for all digits beyond them. -/
theorem dvd_mul_unit {n : Nat} (h : n < 1 <<< 24) :
    2 ^ excess 24 (n * Format.single.unit) ∣ n * Format.single.unit := by
  have hunit : Format.single.unit = 2 ^ 149 := Nat.one_shiftLeft 149
  rw [hunit]
  rcases Nat.eq_zero_or_pos n with rfl | hn
  · exact ⟨0, by simp⟩
  · have hlt : n * 2 ^ 149 < 2 ^ 173 :=
      calc n * 2 ^ 149 < 2 ^ 24 * 2 ^ 149 :=
            Nat.mul_lt_mul_of_pos_right (Nat.one_shiftLeft 24 ▸ h) (Nat.two_pow_pos 149)
        _ = 2 ^ 173 := (Nat.pow_add 2 24 149).symm
    have hlog := (Nat.log2_lt (Nat.mul_pos hn (Nat.two_pow_pos 149)).ne').2 hlt
    refine Nat.dvd_trans (Nat.pow_dvd_pow 2 ?_) (Nat.dvd_mul_left _ n)
    unfold excess
    omega

end Binary

namespace Single

open Binary

/-! ## Patterns of magnitudes -/

/-- The fields of the pattern with leading digits `q` and `k` digits beyond. -/
theorem magnitude_of_bits {x : Single} {sign k q : Nat} (hsign : sign = 0 ∨ sign = 0x80000000)
    (hk : k < 254) (hq : q < 2 ^ 24) (hlead : 0 < k → 2 ^ 23 ≤ q)
    (hbits : x.bits.toNat = sign + (k * 0x800000 + q)) :
    x.IsFinite ∧ x.isNegative = decide (0 < sign) ∧ x.magnitude = q * 2 ^ k := by
  have hnegative : x.isNegative = decide (0 < sign) := by
    unfold isNegative
    rw [hbits, decide_eq_decide]
    omega
  by_cases hsmall : q < 0x800000
  · have hzero : k = 0 := Nat.eq_zero_of_not_pos fun hpos => absurd (hlead hpos) (by omega)
    have hexponent : x.exponentField = 0 := by
      unfold exponentField
      omega
    have hfraction : x.fraction = q := by
      unfold fraction
      omega
    refine ⟨by rw [IsFinite, hexponent]; decide, hnegative, ?_⟩
    rw [magnitude, if_pos hexponent, hfraction, hzero, Nat.pow_zero, Nat.mul_one]
  · have hexponent : x.exponentField = k + 1 := by
      unfold exponentField
      omega
    have hfraction : 0x800000 + x.fraction = q := by
      unfold fraction
      omega
    refine ⟨by rw [IsFinite, hexponent]; omega, hnegative, ?_⟩
    rw [magnitude, if_neg (by omega), hfraction, hexponent, Nat.add_sub_cancel, Nat.shiftLeft_eq]

/-- A magnitude that the format has is given back by its pattern. -/
theorem magnitude_ofMagnitude (negative : Bool) {n : Nat} (hdvd : 2 ^ excess 24 n ∣ n)
    (hlt : n < Format.single.limit) :
    (ofMagnitude negative (some n)).IsFinite ∧
      (ofMagnitude negative (some n)).isNegative = negative ∧
      (ofMagnitude negative (some n)).magnitude = n := by
  have hk : excess 24 n < 254 := by
    have hlimit : Format.single.limit = 2 ^ 277 := by decide +kernel
    rcases Nat.eq_zero_or_pos n with rfl | hn
    · decide
    · have hlog := (Nat.log2_lt hn.ne').2 (hlimit ▸ hlt)
      unfold excess
      omega
  have hq := leading_lt n
  have hbits : (ofMagnitude negative (some n)).bits.toNat =
      (if negative then 0x80000000 else 0) + (excess 24 n * 0x800000 + n / 2 ^ excess 24 n) := by
    simp only [ofMagnitude, patternOfMagnitude, Nat.shiftRight_eq_div_pow]
    apply UInt32.toNat_ofNat_of_lt'
    change _ < 0x100000000
    split <;> omega
  have hfields := magnitude_of_bits (by cases negative <;> simp) hk hq le_leading hbits
  rw [Nat.div_mul_cancel hdvd] at hfields
  refine ⟨hfields.1, ?_, hfields.2.2⟩
  rw [hfields.2.1]
  cases negative <;> rfl

/-! ## Whole numbers -/

/-- The number is finite and its exact value is this whole number. -/
def Denotes (x : Single) (n : Int) : Prop :=
  x.IsFinite ∧ x.steps = n * Format.single.unit

instance (x : Single) (n : Int) : Decidable (x.Denotes n) :=
  inferInstanceAs (Decidable (_ ∧ _))

/-- Whole numbers of twenty-four digits are not rounded. -/
theorem denotes_ofInt {n : Int} (h : n.natAbs < 1 <<< 24) : (ofInt n).Denotes n := by
  have hdvd := dvd_mul_unit h
  have hlt : n.natAbs * Format.single.unit < Format.single.limit := by
    have hlimit : Format.single.limit = 1 <<< 128 * Format.single.unit := by decide +kernel
    rw [hlimit]
    exact Nat.mul_lt_mul_of_pos_right (Nat.lt_trans h (by decide)) (by decide)
  have hround : Format.single.ofRatio n.natAbs 1 = some (n.natAbs * Format.single.unit) := by
    simp only [Format.ofRatio, Format.round]
    rw [show Format.single.precision = 24 from rfl, roundTo_of_dvd hdvd, if_pos hlt]
  have hfields := magnitude_ofMagnitude (n < 0) hdvd hlt
  rw [ofInt, hround]
  refine ⟨hfields.1, ?_⟩
  rw [steps, hfields.2.1, hfields.2.2]
  push_cast
  by_cases hneg : n < 0
  · rw [if_pos (by simpa using hneg), abs_of_neg hneg, Int.neg_mul, Int.neg_neg]
  · rw [if_neg (by simpa using hneg), abs_of_nonneg (Int.not_lt.1 hneg)]

end Single

end DigitiserSums
