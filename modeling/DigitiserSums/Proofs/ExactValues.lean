import DigitiserSums.EdgeCounter
import DigitiserSums.Proofs.WholeNumbers

/-!
# Exact values

A finite 32-bit number has a rational value, and a whole number below `2 ^ 24` that becomes such a
number is its value. So small sums cross a threshold exactly if they cross its value, and since they
are whole, exactly if they cross the next whole number; that one is a 32-bit number again.
-/

namespace DigitiserSums

open Binary

/-! ## Values of numbers -/

namespace Single

variable {x : Single}

/-- The exact value of a magnitude: the fraction counts steps of `2 ^ -149`, and with a leading
digit before it steps that double with the exponent. -/
def absValue (x : Single) : ℚ :=
  if x.exponentField = 0 then x.fraction / 2 ^ 149
  else (2 ^ 23 + x.fraction) * 2 ^ ((x.exponentField : ℤ) - 150)

/-- The exact value of a finite number. -/
def value (x : Single) : ℚ :=
  if x.isNegative then -x.absValue else x.absValue

/-- The exact value of the number that a whole number becomes. -/
def valueOfNat (n : Nat) : ℚ :=
  stepsOfNat n / 2 ^ 149

theorem natCast_unit : ((Format.single.unit : Nat) : ℚ) = 2 ^ 149 := by
  rw [show Format.single.unit = 2 ^ 149 from Nat.one_shiftLeft 149, Nat.cast_pow, Nat.cast_ofNat]

theorem natCast_magnitude (x : Single) : (x.magnitude : ℚ) = x.absValue * 2 ^ 149 := by
  unfold magnitude absValue
  by_cases hexponent : x.exponentField = 0
  · rw [if_pos hexponent, if_pos hexponent]
    field_simp
  · rw [if_neg hexponent, if_neg hexponent, Nat.shiftLeft_eq, mul_assoc, ← zpow_natCast 2 149,
      ← zpow_add₀ two_ne_zero]
    have hpower : (x.exponentField : ℤ) - 150 + (149 : ℕ) = (x.exponentField - 1 : ℕ) := by omega
    rw [hpower, zpow_natCast]
    push_cast
    norm_num

theorem intCast_steps (x : Single) : (x.steps : ℚ) = x.value * 2 ^ 149 := by
  unfold steps value
  split
  · rw [Int.cast_neg, Int.cast_natCast, natCast_magnitude, neg_mul]
  · rw [Int.cast_natCast, natCast_magnitude]

theorem lt_value_iff (n : ℤ) : (n : ℚ) < x.value ↔ n * Format.single.unit < x.steps := by
  rw [← Int.cast_lt (R := ℚ), intCast_steps]
  push_cast
  rw [natCast_unit, mul_lt_mul_iff_left₀ (by positivity)]

theorem value_lt_iff (n : ℤ) : x.value < n ↔ x.steps < n * Format.single.unit := by
  rw [← Int.cast_lt (R := ℚ), intCast_steps]
  push_cast
  rw [natCast_unit, mul_lt_mul_iff_left₀ (by positivity)]

theorem Denotes.value_eq {n : ℤ} (h : x.Denotes n) : x.value = n := by
  have hsteps := congrArg (Int.cast (R := ℚ)) h.2
  rw [intCast_steps] at hsteps
  push_cast at hsteps
  rw [natCast_unit] at hsteps
  exact mul_right_cancel₀ (by positivity) hsteps

/-- Small whole numbers are not rounded. -/
theorem valueOfNat_of_lt {n : Nat} (h : n < 2 ^ 24) : valueOfNat n = n := by
  rw [valueOfNat, stepsOfNat_of_lt (Nat.one_shiftLeft 24 ▸ h), Nat.cast_mul, natCast_unit]
  field_simp

/-! ## Whole values -/

theorem absValue_nonneg (x : Single) : 0 ≤ x.absValue := by
  unfold absValue
  split <;> positivity

/-- A magnitude is whole unless it is small. -/
theorem exists_absValue_eq_or_lt (x : Single) :
    (∃ n : ℤ, x.absValue = n) ∨ x.absValue < 2 ^ 23 := by
  have hfraction : (x.fraction : ℚ) < 2 ^ 23 := by
    have hlt : x.fraction < 2 ^ 23 := Nat.mod_lt _ (by decide)
    exact_mod_cast hlt
  unfold absValue
  by_cases hexponent : x.exponentField = 0
  · right
    rw [if_pos hexponent]
    exact (div_le_self (by positivity) (one_le_pow₀ one_le_two)).trans_lt hfraction
  · rw [if_neg hexponent]
    by_cases hlarge : 150 ≤ x.exponentField
    · left
      have hpower : (x.exponentField : ℤ) - 150 = (x.exponentField - 150 : ℕ) := by omega
      refine ⟨(2 ^ 23 + x.fraction) * 2 ^ (x.exponentField - 150), ?_⟩
      rw [hpower, zpow_natCast]
      push_cast
      rfl
    · right
      have hpower : (2 : ℚ) ^ ((x.exponentField : ℤ) - 150) ≤ 2 ^ (-1 : ℤ) :=
        zpow_le_zpow_right₀ one_le_two (by omega)
      calc (2 ^ 23 + (x.fraction : ℚ)) * 2 ^ ((x.exponentField : ℤ) - 150)
          ≤ (2 ^ 23 + x.fraction) * 2 ^ (-1 : ℤ) := by gcongr
        _ < (2 ^ 23 + 2 ^ 23) * 2 ^ (-1 : ℤ) := by gcongr
        _ = 2 ^ 23 := by norm_num

/-- So is a number. -/
theorem exists_value_eq_or_abs_lt (x : Single) :
    (∃ n : ℤ, x.value = n) ∨ |x.value| < 2 ^ 23 := by
  have habs : |x.value| = x.absValue := by
    unfold value
    split
    · rw [abs_neg, abs_of_nonneg x.absValue_nonneg]
    · rw [abs_of_nonneg x.absValue_nonneg]
  rcases x.exists_absValue_eq_or_lt with ⟨n, hn⟩ | hsmall
  · left
    unfold value
    split
    · exact ⟨-n, by rw [hn, Int.cast_neg]⟩
    · exact ⟨n, hn⟩
  · right
    rwa [habs]

end Single

/-! ## Crossings of a value -/

namespace EdgeKind

/-- Whether going from one whole number to another crosses a rational threshold. -/
def CrossesValue : EdgeKind → (threshold : ℚ) → (previous current : Nat) → Prop
  | rising, q, p, c => (p : ℚ) < q ∧ q ≤ c
  | falling, q, p, c => (p : ℚ) > q ∧ q ≥ c

instance (k : EdgeKind) (q : ℚ) (p c : Nat) : Decidable (k.CrossesValue q p c) := by
  cases k <;> exact inferInstanceAs (Decidable (_ ∧ _))

/-- The whole number next to a threshold on the far side, or the threshold if it is whole. -/
def whole : EdgeKind → ℚ → ℤ
  | rising, q => ⌈q⌉
  | falling, q => ⌊q⌋

/-- Small sums cross a threshold as they cross its value. -/
theorem crosses_iff_crossesValue (k : EdgeKind) (x : Single) {p c : Nat} (hp : p < 2 ^ 24)
    (hc : c < 2 ^ 24) :
    k.Crosses x.steps (Single.stepsOfNat p) (Single.stepsOfNat c) ↔
      k.CrossesValue x.value p c := by
  rw [Single.stepsOfNat_of_lt (Nat.one_shiftLeft 24 ▸ hp),
    Single.stepsOfNat_of_lt (Nat.one_shiftLeft 24 ▸ hc)]
  cases k with
  | rising =>
      have hprevious := x.lt_value_iff p
      have hcurrent := x.lt_value_iff c
      push_cast at hprevious hcurrent ⊢
      simp only [Crosses, CrossesValue]
      rw [hprevious, ← not_lt, ← not_lt, hcurrent]
  | falling =>
      have hprevious := x.value_lt_iff p
      have hcurrent := x.value_lt_iff c
      push_cast at hprevious hcurrent ⊢
      simp only [Crosses, CrossesValue, gt_iff_lt, ge_iff_le]
      rw [hprevious, ← not_lt, ← not_lt, hcurrent]

/-- Whole numbers cross a threshold as they cross the whole number next to it. -/
theorem crossesValue_whole (k : EdgeKind) (q : ℚ) (p c : Nat) :
    k.CrossesValue (k.whole q) p c ↔ k.CrossesValue q p c := by
  have hprevious : ((p : ℤ) : ℚ) = p := Int.cast_natCast p
  have hcurrent : ((c : ℤ) : ℚ) = c := Int.cast_natCast c
  cases k with
  | rising =>
      simp only [CrossesValue, whole]
      rw [← hprevious, ← hcurrent, Int.cast_lt, Int.cast_le, Int.lt_ceil, Int.ceil_le]
  | falling =>
      simp only [CrossesValue, whole, gt_iff_lt, ge_iff_le]
      rw [← hprevious, ← hcurrent, Int.cast_lt, Int.cast_le, Int.floor_lt, Int.le_floor]

theorem whole_intCast (k : EdgeKind) (n : ℤ) : k.whole n = n := by
  cases k with
  | rising => exact Int.ceil_intCast n
  | falling => exact Int.floor_intCast n

theorem natAbs_whole_le (k : EdgeKind) {q : ℚ} {n : Nat} (h : |q| ≤ n) :
    (k.whole q).natAbs ≤ n := by
  obtain ⟨hlow, hhigh⟩ := abs_le.1 h
  have hbounds : -(n : ℤ) ≤ k.whole q ∧ k.whole q ≤ n := by
    cases k with
    | rising =>
        exact ⟨Int.cast_le.1 ((by push_cast; exact hlow : _ ≤ q).trans (Int.le_ceil q)),
          Int.ceil_le.2 (by exact_mod_cast hhigh)⟩
    | falling =>
        exact ⟨Int.le_floor.2 (by push_cast; exact hlow),
          Int.cast_le.1 ((Int.floor_le q).trans (by exact_mod_cast hhigh))⟩
  omega

/-- That whole number is a number of the format. -/
theorem exists_value_eq_whole (k : EdgeKind) {x : Single} (h : x.IsFinite) :
    ∃ y : Single, y.IsFinite ∧ y.value = k.whole x.value := by
  rcases x.exists_value_eq_or_abs_lt with ⟨n, hn⟩ | hsmall
  · exact ⟨x, h, by rw [hn, whole_intCast]⟩
  · have habs : (k.whole x.value).natAbs ≤ 2 ^ 23 :=
      k.natAbs_whole_le (by exact_mod_cast hsmall.le)
    have hdenotes := Single.denotes_ofInt (n := k.whole x.value)
      (Nat.lt_of_le_of_lt habs (by decide))
    exact ⟨_, hdenotes.1, hdenotes.value_eq⟩

end EdgeKind

end DigitiserSums
